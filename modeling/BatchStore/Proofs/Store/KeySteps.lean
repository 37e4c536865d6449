import BatchStore.Proofs.Store.Payload
import BatchStore.Store.Backup
import BatchStore.Store.Keys
import BatchStore.Store.Places
import BatchStore.Store.Sets
import BatchStore.Store.Strings

/-!
# Key steps keep values clean

A refused command leaves its refusal among the replies of a pipeline, so a reply that is a
refusal but was answered by a command that succeeded would be counted as a failure. That
cannot happen: a command answers parts of values, and no value has a refusal for a part.

A key step is `KeyStep.Clean` if from a clean value it makes a clean one and answers no
refusal. Every step of every command is; the section on each kind of value has one lemma
for each.
-/

namespace BatchStore

/-- If there is an answer, it is no refusal and what stays at the key is clean. -/
def CleanAnswer (r : Except Halt (Datum × Option Entry)) : Prop :=
  ∀ reply after, r = .ok (reply, after) → reply.isRefusal = false ∧ Entry.Clean after

/-- A step that makes clean values of clean values and answers no refusal. -/
def KeyStep.Clean (step : KeyStep) : Prop := ∀ seen, Entry.Clean seen → CleanAnswer (step seen)

namespace CleanAnswer

/-- A reply that is no refusal, and a clean entry. -/
theorem ok {reply : Datum} {after : Option Entry} (hReply : reply.isRefusal = false)
    (hAfter : Entry.Clean after) : CleanAnswer (.ok (reply, after)) := by
  intro reply' after' h
  cases h
  exact ⟨hReply, hAfter⟩

/-- A reply to what was seen and stays. -/
theorem keep {reply : Datum} {seen : Option Entry} (hSeen : Entry.Clean seen)
    (hReply : reply.isRefusal = false) : CleanAnswer (keep seen reply) :=
  ok hReply hSeen

/-- A failure holds nothing. -/
theorem error (h : Halt) : CleanAnswer (.error h) := by
  intro reply after hOk
  cases hOk

theorem refuse (r : Refusal) : CleanAnswer (refuse r) := error (.refused r)

/-- A result that is read first, and the answer behind it. -/
theorem bind {α : Type} {x : Except Halt α} {f : α → Except Halt (Datum × Option Entry)}
    (h : ∀ a, x = .ok a → CleanAnswer (f a)) : CleanAnswer (x >>= f) := by
  cases x with
  | error e => exact error e
  | ok a => exact h a rfl

end CleanAnswer

/-! ## Entries -/

namespace Entry

/-- Nothing is clean. -/
theorem clean_none : Clean none := fun _ h => nomatch h

theorem clean_some {e : Entry} (h : e.value.Clean) : Clean (some e) := by
  intro e' h'
  cases h'
  exact h

/-- A change of deadlines leaves clean what was clean. -/
theorem clean_map {seen : Option Entry} (h : Clean seen) {f : Entry → Entry}
    (hValue : ∀ e, (f e).value = e.value) : Clean (seen.map f) := by
  intro e he
  obtain ⟨old, hOld, rfl⟩ := Option.map_eq_some_iff.1 he
  rw [hValue]
  exact h old hOld

/-- A value in place of another is as clean as itself. -/
theorem clean_replace (old? : Option Entry) {v : Value} (h : v.Clean) :
    Clean (some (.replace old? v)) :=
  clean_some h

theorem clean_replaceUnlessEmpty (old? : Option Entry) {v : Value} (h : v.Clean) :
    Clean (replaceUnlessEmpty old? v) := by
  unfold replaceUnlessEmpty
  split
  · exact clean_none
  · exact clean_replace old? h

end Entry

/-! ## Values of one kind -/

/-- A value of the expected kind is the value of what was seen. -/
theorem expect_eq_some {α : Type} {kind? : Value → Option α} {seen : Option Entry} {a : α}
    (h : expect kind? seen = .ok (some a)) : ∃ e, seen = some e ∧ kind? e.value = some a := by
  unfold expect at h
  split at h
  · cases h
  · rename_i e
    split at h
    · rename_i hKind
      cases h
      exact ⟨e, rfl, hKind⟩
    · cases h

/-- The contents of a clean value of the expected kind. -/
theorem expect_clean {α : Type} {kind? : Value → Option α} (make : α → Value)
    (hMake : ∀ v a, kind? v = some a → v = make a) {seen : Option Entry} (hSeen : Entry.Clean seen)
    {a : α} (h : expect kind? seen = .ok (some a)) : (make a).Clean := by
  obtain ⟨e, hEntry, hKind⟩ := expect_eq_some h
  rw [← hMake e.value a hKind]
  exact hSeen e hEntry

/-- A value that is told for a list is one. -/
theorem eq_list_of_list? {v : Value} {items : List Datum} (h : v.list? = some items) :
    v = .list items := by
  cases v <;> simp_all [Value.list?]

theorem eq_hash_of_hash? {v : Value} {fields : Table Datum Datum} (h : v.hash? = some fields) :
    v = .hash fields := by
  cases v <;> simp_all [Value.hash?]

theorem eq_zset_of_zset? {v : Value} {scores : Table Datum Datum} (h : v.zset? = some scores) :
    v = .zset scores := by
  cases v <;> simp_all [Value.zset?]

/-- The list at a key; a missing one is empty. -/
theorem list_clean {seen : Option Entry} (hSeen : Entry.Clean seen) {items? : Option (List Datum)}
    (h : expect Value.list? seen = .ok items?) : (Value.list (items?.getD [])).Clean := by
  cases items? with
  | none => exact Value.clean_list_nil
  | some items => exact expect_clean .list (fun _ _ => eq_list_of_list?) hSeen h

/-- The hash at a key; a missing one is empty. -/
theorem hash_clean {seen : Option Entry} (hSeen : Entry.Clean seen)
    {fields? : Option (Table Datum Datum)} (h : expect Value.hash? seen = .ok fields?) :
    (Value.hash (fields?.getD .empty)).Clean := by
  cases fields? with
  | none => exact Value.clean_hash_empty
  | some fields => exact expect_clean .hash (fun _ _ => eq_hash_of_hash?) hSeen h

/-- The sorted set at a key; a missing one is empty. -/
theorem zset_clean {seen : Option Entry} (hSeen : Entry.Clean seen)
    {scores? : Option (Table Datum Datum)} (h : expect Value.zset? seen = .ok scores?) :
    (Value.zset (scores?.getD .empty)).Clean := by
  cases scores? with
  | none => exact Value.clean_zset_empty
  | some scores => exact expect_clean .zset (fun _ _ => eq_zset_of_zset?) hSeen h

/-- The scores at a key, or none, are clean. -/
theorem scoresAt_clean {seen : Option Entry} (hSeen : Entry.Clean seen)
    {scores : Table Datum Datum} (h : SortedSets.scoresAt seen = .ok scores) :
    (Value.zset scores).Clean := by
  obtain ⟨scores?, hExpect, hScores⟩ := ok_of_bind h
  cases hScores
  exact zset_clean hSeen hExpect

/-- What a clean table has at a key, or null, is no refusal. -/
theorem getD_get?_isRefusal {t : Table Datum Datum} (h : ∀ d ∈ t.values, d.isRefusal = false)
    (key : Datum) : ((t.get? key).getD .null).isRefusal = false := by
  cases hGet : t.get? key with
  | none => rfl
  | some d => exact h d (Table.mem_values_of_get? hGet)

/-! ## Keys of any kind -/

namespace Keys

/-- A key that is deleted holds nothing any more. -/
theorem delete_clean : KeyStep.Clean delete := by
  intro seen _
  exact .ok rfl Entry.clean_none

theorem exists?_clean : KeyStep.Clean exists? := by
  intro seen hSeen
  exact .keep hSeen rfl

/-- A deadline changes nothing in the value. -/
theorem expireStep_clean (now : Float) (seconds : Int) :
    KeyStep.Clean (expireStep now seconds) := by
  intro seen hSeen
  unfold expireStep
  split
  · exact .keep hSeen rfl
  · rename_i e
    split
    · exact .ok rfl Entry.clean_none
    · refine .bind fun span _ => .ok rfl (Entry.clean_some ?_)
      exact hSeen e rfl

/-- TTL answers a number and leaves the key. -/
theorem ttl_clean (now : Float) : KeyStep.Clean (ttl now) := by
  intro seen hSeen
  unfold ttl
  split
  · exact .keep hSeen rfl
  · split
    · exact .keep hSeen rfl
    · exact .bind fun seconds _ => .keep hSeen rfl

theorem persist_clean : KeyStep.Clean persist := by
  intro seen hSeen
  exact .ok rfl (Entry.clean_map hSeen fun _ => rfl)

theorem type_clean : KeyStep.Clean type := by
  intro seen hSeen
  exact .keep hSeen rfl

end Keys

/-! ## Strings -/

namespace Strings

/-- A string or its absence is no refusal. -/
theorem isRefusal_shown (w? : Option Octets) : (shown w?).isRefusal = false := by
  cases w? <;> rfl

/-- SET writes a string, or leaves what was there. -/
theorem step_clean (plan : SetPlan) (value : Octets) : KeyStep.Clean (plan.step value) := by
  intro seen hSeen
  have hAfter : Entry.Clean (if plan.guard.allows seen then
      some { value := .string value, deadline? := plan.newDeadline seen } else seen) := by
    split
    · exact Entry.clean_some (Value.clean_string value)
    · exact hSeen
  unfold SetPlan.step
  split
  · exact .bind fun old _ => .ok (isRefusal_shown old) hAfter
  · refine .ok ?_ hAfter
    split <;> rfl

theorem get_clean : KeyStep.Clean get := by
  intro seen hSeen
  exact .bind fun value _ => .keep hSeen (isRefusal_shown value)

/-- GETEX changes the deadline alone. -/
theorem getex_clean (now : Float) (options : List Octets) :
    KeyStep.Clean (getex now options) := by
  intro seen hSeen
  refine .bind fun value _ => ?_
  have hNew (deadline? : Option Float) :
      Entry.Clean (seen.map fun e => { e with deadline? := deadline? }) :=
    Entry.clean_map hSeen fun _ => rfl
  split
  · exact .keep hSeen (isRefusal_shown value)
  · split
    · exact .ok (isRefusal_shown value) (hNew none)
    · exact .refuse _
  · split
    · split
      · exact .bind fun amount _ => .bind fun deadline _ =>
          .ok (isRefusal_shown value) (hNew (some deadline))
      · exact .refuse _
    · exact .refuse _
  · exact .refuse _

theorem strlen_clean : KeyStep.Clean strlen := by
  intro seen hSeen
  exact .bind fun value _ => .keep hSeen rfl

theorem peek_clean : KeyStep.Clean peek := by
  intro seen hSeen
  exact .keep hSeen (isRefusal_shown _)

theorem append_clean (value : Octets) : KeyStep.Clean (append value) := by
  intro seen _
  exact .bind fun old _ => .ok rfl (Entry.clean_replace seen (Value.clean_string _))

/-- A number in digits is a string. -/
theorem writeInt_clean (seen : Option Entry) (number : Int) :
    CleanAnswer (writeInt seen number) := by
  unfold writeInt
  split
  · exact .error _
  · exact .ok rfl (Entry.clean_replace seen (Value.clean_string _))

theorem add_clean (amount : Int) : KeyStep.Clean (add amount) := by
  intro seen _
  refine .bind fun old _ => ?_
  cases old with
  | none => exact writeInt_clean seen amount
  | some w => exact .bind fun number _ => writeInt_clean seen (number + amount)

end Strings

/-! ## Hashes -/

namespace Hashes

/-- What is left of fields was there before. -/
theorem mem_values_removeAll {t : Table Datum Datum} {keys : List Octets} {d : Datum}
    (h : d ∈ (removeAll t keys).1.values) : d ∈ t.values := by
  induction keys generalizing t with
  | nil => exact h
  | cons key rest ih => exact Table.mem_values_erase (ih h)

/-- HSET puts octets to octets. -/
theorem hsetStep_clean (pairs : List (Octets × Octets)) : KeyStep.Clean (hsetStep pairs) := by
  intro seen hSeen
  refine .bind fun fields? hFields => .ok rfl (Entry.clean_replace seen ?_)
  intro d hd
  rcases Table.mem_values_putAll hd with hNew | hOld
  · simp only [List.map_map, List.mem_map] at hNew
    obtain ⟨e, -, rfl⟩ := hNew
    rfl
  · exact hash_clean hSeen hFields d hOld

/-- HGET answers a value of the hash, which is clean by itself. -/
theorem hget_clean (field : Octets) : KeyStep.Clean (hget field) := by
  intro seen hSeen
  exact .bind fun fields? hFields =>
    .keep hSeen (getD_get?_isRefusal (hash_clean hSeen hFields) _)

theorem hdel_clean (fields : List Octets) : KeyStep.Clean (hdel fields) := by
  intro seen hSeen
  refine .bind fun fields? hFields => ?_
  split
  · exact .keep hSeen rfl
  · refine .ok rfl (Entry.clean_replaceUnlessEmpty seen fun d hd => ?_)
    exact hash_clean hSeen hFields d (mem_values_removeAll hd)

theorem hgetall_clean : KeyStep.Clean hgetall := by
  intro seen hSeen
  exact .bind fun fields? _ => .keep hSeen rfl

theorem hexists_clean (field : Octets) : KeyStep.Clean (hexists field) := by
  intro seen hSeen
  exact .bind fun fields? _ => .keep hSeen rfl

theorem hlen_clean : KeyStep.Clean hlen := by
  intro seen hSeen
  exact .bind fun fields? _ => .keep hSeen rfl

end Hashes

/-! ## Lists -/

namespace Lists

/-- What is pushed are octets. -/
theorem mem_push {items : List Datum} {e : End} {elements : List Octets} {d : Datum}
    (h : d ∈ push items e elements) : d ∈ items ∨ ∃ w, d = .octets w := by
  cases e with
  | left =>
      rcases List.mem_append.1 h with hNew | hOld
      · obtain ⟨w, -, rfl⟩ := List.mem_map.1 (List.mem_reverse.1 hNew)
        exact .inr ⟨w, rfl⟩
      · exact .inl hOld
  | right =>
      rcases List.mem_append.1 h with hOld | hNew
      · exact .inl hOld
      · obtain ⟨w, -, rfl⟩ := List.mem_map.1 hNew
        exact .inr ⟨w, rfl⟩

/-- What is taken off an end and what is left come from the list. -/
theorem mem_of_pop?_eq_some {items rest : List Datum} {e : End} {element : Datum}
    (h : pop? items e = some (element, rest)) :
    element ∈ items ∧ ∀ d ∈ rest, d ∈ items := by
  cases e with
  | left =>
      obtain ⟨d, hHead, hPair⟩ := Option.map_eq_some_iff.1 h
      cases hPair
      exact ⟨List.mem_of_head? hHead, fun _ => List.mem_of_mem_drop⟩
  | right =>
      obtain ⟨d, hLast, hPair⟩ := Option.map_eq_some_iff.1 h
      cases hPair
      exact ⟨List.mem_of_getLast? hLast, fun _ hd => List.dropLast_subset items hd⟩

/-- A list with octets pushed to it is as clean as before. -/
theorem pushStep_clean (e : End) (elements : List Octets) :
    KeyStep.Clean (pushStep e elements) := by
  intro seen hSeen
  refine .bind fun items? hItems => .ok rfl (Entry.clean_replace seen fun d hd => ?_)
  rcases mem_push hd with hOld | ⟨w, rfl⟩
  · exact list_clean hSeen hItems d hOld
  · rfl

/-- LPOP and RPOP answer an element and leave the others. -/
theorem popStep_clean (e : End) : KeyStep.Clean (popStep e) := by
  intro seen hSeen
  refine .bind fun items? hItems => ?_
  have hOld := list_clean hSeen hItems
  dsimp only
  split
  · exact .keep hSeen rfl
  · rename_i element new hPop
    obtain ⟨hElement, hRest⟩ := mem_of_pop?_eq_some hPop
    exact .ok (hOld element hElement)
      (Entry.clean_replaceUnlessEmpty seen fun d hd => hOld d (hRest d hd))

theorem llen_clean : KeyStep.Clean llen := by
  intro seen hSeen
  exact .bind fun items? _ => .keep hSeen rfl

theorem lrange_clean (first last : Octets) : KeyStep.Clean (lrange first last) := by
  intro seen hSeen
  exact .bind fun items? _ => .bind fun _ _ => .bind fun _ _ => .keep hSeen rfl

/-- LPOS answers a place. -/
theorem lposStep_clean (q : Search) (element : Octets) : KeyStep.Clean (lposStep q element) := by
  intro seen hSeen
  refine .bind fun items? _ => .keep hSeen ?_
  cases q.find? (items?.getD []) (.octets element) <;> rfl

end Lists

/-! ## Sets -/

namespace Sets

/-- The members of a set are never answered by themselves. -/
theorem sadd_clean (ms : List Octets) : KeyStep.Clean (sadd ms) := by
  intro seen _
  exact .bind fun members? _ => .ok rfl (Entry.clean_replace seen (Value.clean_set _))

theorem srem_clean (ms : List Octets) : KeyStep.Clean (srem ms) := by
  intro seen hSeen
  refine .bind fun members? _ => ?_
  split
  · exact .keep hSeen rfl
  · exact .ok rfl (Entry.clean_replaceUnlessEmpty seen (Value.clean_set _))

theorem smembers_clean : KeyStep.Clean smembers := by
  intro seen hSeen
  exact .bind fun members? _ => .keep hSeen rfl

theorem sismember_clean (m : Octets) : KeyStep.Clean (sismember m) := by
  intro seen hSeen
  exact .bind fun members? _ => .keep hSeen rfl

theorem scard_clean : KeyStep.Clean scard := by
  intro seen hSeen
  exact .bind fun members? _ => .keep hSeen rfl

end Sets

/-! ## Sorted sets -/

/-- Pairs of a member and a score, as commands write them. -/
def ScorePairs (pairs : List (Datum × Datum)) : Prop := ∀ e ∈ pairs, ∃ x, e.2 = .real x

namespace SortedSets

/-- Scores that were read are doubles. -/
theorem scorePairs_readScores {words : List (Octets × Octets)} {pairs : List (Datum × Datum)}
    (h : readScores words = .ok pairs) : ScorePairs pairs := by
  induction words generalizing pairs with
  | nil =>
      cases h
      exact fun _ hMem => nomatch hMem
  | cons word rest ih =>
      obtain ⟨score, member⟩ := word
      obtain ⟨x, -, hOthers⟩ := ok_of_bind h
      obtain ⟨others, hRest, hPairs⟩ := ok_of_bind hOthers
      cases hPairs
      intro e he
      rcases List.mem_cons.1 he with rfl | hOther
      · exact ⟨x, rfl⟩
      · exact ih hRest e hOther

/-- ZADD puts doubles to members. -/
theorem zaddStep_clean {pairs : List (Datum × Datum)} (h : ScorePairs pairs) :
    KeyStep.Clean (zaddStep pairs) := by
  intro seen hSeen
  refine .bind fun scores hScores => .ok rfl (Entry.clean_replace seen fun d hd => ?_)
  rcases Table.mem_values_putAll hd with hNew | hOld
  · obtain ⟨e, he, rfl⟩ := List.mem_map.1 hNew
    obtain ⟨x, hx⟩ := h e he
    rw [hx]
    rfl
  · exact scoresAt_clean hSeen hScores d hOld

theorem zrem_clean (members : List Octets) : KeyStep.Clean (zrem members) := by
  intro seen hSeen
  refine .bind fun scores? hScores => ?_
  split
  · exact .keep hSeen rfl
  · refine .ok rfl (Entry.clean_replaceUnlessEmpty seen fun d hd => ?_)
    exact zset_clean hSeen hScores d (Hashes.mem_values_removeAll hd)

/-- ZSCORE answers a score, which is clean by itself. -/
theorem zscore_clean (member : Octets) : KeyStep.Clean (zscore member) := by
  intro seen hSeen
  exact .bind fun scores hScores =>
    .keep hSeen (getD_get?_isRefusal (scoresAt_clean hSeen hScores) _)

theorem zcard_clean : KeyStep.Clean zcard := by
  intro seen hSeen
  exact .bind fun scores _ => .keep hSeen rfl

/-- ZRANGE answers members in a row. -/
theorem zrangeStep_clean (plan : RangePlan) (first last : Octets) :
    KeyStep.Clean (zrangeStep plan first last) := by
  intro seen hSeen
  exact .bind fun scores _ => .bind fun members _ => .keep hSeen rfl

/-- ZPOPMIN and ZPOPMAX answer a mapping and leave the other scores. -/
theorem zpopStep_clean (e : Extreme) (count : Int) : KeyStep.Clean (zpopStep e count) := by
  intro seen hSeen
  refine .bind fun scores? hScores => ?_
  split
  · exact .keep hSeen rfl
  · refine .bind fun popped _ => .ok rfl (Entry.clean_replaceUnlessEmpty seen fun d hd => ?_)
    exact zset_clean hSeen hScores d (Table.mem_values_withoutEntries hd)

end SortedSets

/-! ## Places -/

namespace Places

/-- Places that were read have doubles as scores. -/
theorem scorePairs_readPlaces {words : List (Octets × Octets × Octets)}
    {pairs : List (Datum × Datum)} (h : readPlaces words = .ok pairs) : ScorePairs pairs := by
  induction words generalizing pairs with
  | nil =>
      cases h
      exact fun _ hMem => nomatch hMem
  | cons word rest ih =>
      obtain ⟨longitude, latitude, member⟩ := word
      obtain ⟨x, -, hLatitude⟩ := ok_of_bind h
      obtain ⟨y, -, hScore⟩ := ok_of_bind hLatitude
      obtain ⟨score, -, hOthers⟩ := ok_of_bind hScore
      obtain ⟨others, hRest, hPairs⟩ := ok_of_bind hOthers
      cases hPairs
      intro e he
      rcases List.mem_cons.1 he with rfl | hOther
      · exact ⟨score, rfl⟩
      · exact ih hRest e hOther

/-- Scores behind GEOADD are those before, or of the places. -/
theorem mem_values_write {flags : Flags} {scores : Table Datum Datum}
    {places : List (Datum × Datum)} {d : Datum} (h : d ∈ (flags.write scores places).1.values) :
    d ∈ places.map (·.2) ∨ d ∈ scores.values := by
  induction places generalizing scores with
  | nil => exact .inr h
  | cons place rest ih =>
      obtain ⟨member, score⟩ := place
      simp only [Flags.write] at h
      split at h
      · rcases ih h with hRest | hPut
        · exact .inl (List.mem_cons_of_mem _ hRest)
        · rcases Table.mem_values_put hPut with hNew | hOld
          · exact .inl (hNew ▸ List.mem_cons_self)
          · exact .inr hOld
      · exact (ih h).imp_left (List.mem_cons_of_mem _)

theorem geoaddStep_clean (flags : Flags) {places : List (Datum × Datum)} (h : ScorePairs places) :
    KeyStep.Clean (geoaddStep flags places) := by
  intro seen hSeen
  refine .bind fun scores hScores => .ok rfl (Entry.clean_replaceUnlessEmpty seen fun d hd => ?_)
  rcases mem_values_write hd with hNew | hOld
  · obtain ⟨e, he, rfl⟩ := List.mem_map.1 hNew
    obtain ⟨x, hx⟩ := h e he
    rw [hx]
    rfl
  · exact scoresAt_clean hSeen hScores d hOld

end Places

/-! ## Backups -/

namespace Backup

/-- DUMP answers octets. -/
theorem dump_clean : KeyStep.Clean dump := by
  intro seen hSeen
  refine .keep hSeen ?_
  cases seen <;> rfl

/-- RESTORE puts a value that a payload may hold, and such values are clean. -/
theorem step_clean (plan : RestorePlan) (payload : Octets) :
    KeyStep.Clean (plan.step payload) := by
  intro seen _
  unfold RestorePlan.step RestorePlan.stepBy
  split
  · exact .refuse _
  · split
    · exact .refuse _
    · rename_i value hValue
      exact .ok rfl (Entry.clean_some (Payload.clean_of_valueOf? hValue))

theorem withDeadline_clean (t : Float) : KeyStep.Clean (withDeadline t) := by
  intro seen hSeen
  exact .ok rfl (Entry.clean_map hSeen fun _ => rfl)

end Backup

end BatchStore
