import BatchStore.Proofs.Number.Digits
import BatchStore.Proofs.Options.Searches
import BatchStore.Proofs.Store.Pipeline
import BatchStore.Proofs.Store.Reach

/-!
# A full scan comes by every key once

A caller scans a database by one SCAN after another. The first has the cursor 0, every other the
cursor that the one before it answered, and the one that answers 0 is the last (`Scan.Iterates`).
Each may ask for another number of keys.

A cursor is a place among the keys in order. The call at a place answers the keys from there up to
the place that it answers, those of them that pass the filters, or all that are left and 0
(`Scan.scanBy_call`). So what is left to be answered at a place is what stands behind it, and that
gets shorter with every call (`Scan.iterates_from`). Expired keys are out after the first call, and
nothing is written, so all calls find the same keys.

`scan_exactly_once` is the result: the iteration ends, and there are in it the live keys that pass
the filters, in order, each once. A cursor is answered as a numeral, which has a limited number of
digits (`Number.maxDigits`, some thousands), and so the keys must be fewer than that allows.
-/

namespace BatchStore

namespace Database

/-- The keys that show at a reading of the clock. -/
def liveKeys (db : Database) (now : Float) : List Octets :=
  db.keys.filter fun key => (db.live? now key).isSome

theorem keys_settleAll {db : Database} (h : db.Distinct) (now : Float) :
    (db.settleAll now).keys = db.liveKeys now := by
  have hShows (e : Octets × Entry) (he : e ∈ db.entries) :
      (!e.2.isExpired now) = (db.live? now e.1).isSome := by
    have hEntry : db.get? e.1 = some e.2 := (Table.mem_entries_iff h e.1 e.2).1 he
    rw [live?, hEntry, Option.filter_some]
    cases e.2.isExpired now <;> rfl
  unfold liveKeys settleAll Table.filter Table.keys
  rw [List.filter_map, List.filter_congr hShows]
  rfl

end Database

namespace Scan

/-! ## The words of a scan -/

/-- The words ask for a pattern, a kind and a number of keys, whatever the cursor. -/
def Asks (options : List Octets) (pattern? : Option Octets) (kind? : Option String)
    (count : Int) : Prop :=
  ∀ cursor : Int, Plan.read { cursor } options = .ok { cursor, pattern?, count, kind? }

/-- The words of a pattern and a kind, if there are any, and of a number of keys. -/
def words (pattern? : Option Octets) (kind? : Option String) (count : Octets) : List Octets :=
  (pattern?.elim [] fun pattern => [Keyword.pattern.octets, pattern]) ++
    ((kind?.elim [] fun kind => [Keyword.type.octets, Octets.ofText kind]) ++
      [Keyword.count.octets, count])

/-- Any filters can be asked for, with any number of keys but for none. -/
theorem asks_words (pattern? : Option Octets) (kind? : Option String) {w : Octets} {count : Int}
    (hCount : Number.int? w = some count) (hSome : 0 < count) :
    Asks (words pattern? kind? w) pattern? (kind?.map String.toLower) count := by
  intro cursor
  have hEnd (plan : Plan) : plan.read [Keyword.count.octets, w] = .ok { plan with count } := by
    rw [Plan.read_count, readInt_of_int? hCount]
    exact if_neg (Int.not_le.2 hSome)
  have hKind (plan : Plan) (h : plan.kind? = none) :
      plan.read ((kind?.elim [] fun kind => [Keyword.type.octets, Octets.ofText kind]) ++
        [Keyword.count.octets, w]) =
      .ok { plan with count, kind? := kind?.map String.toLower } := by
    cases kind? with
    | none =>
        show plan.read [Keyword.count.octets, w] = .ok { plan with count, kind? := none }
        rw [hEnd, ← h]
    | some kind =>
        show plan.read [Keyword.type.octets, Octets.ofText kind, Keyword.count.octets, w] = _
        rw [Plan.read_type, readText_ofText]
        exact hEnd { plan with kind? := some kind.toLower }
  cases pattern? with
  | none => exact hKind { cursor } rfl
  | some pattern =>
      show Plan.read { cursor } (Keyword.pattern.octets :: pattern :: _) = _
      rw [Plan.read_pattern]
      exact hKind { cursor, pattern? := some pattern } rfl

/-- No scan asks for less than one key. -/
theorem Plan.read_count_pos (plan : Plan) {plan' : Plan} {options : List Octets}
    (hCount : 0 < plan.count) (h : plan.read options = .ok plan') : 0 < plan'.count := by
  fun_induction Plan.read plan options with
  | case1 plan =>
      cases h
      exact hCount
  | case2 => cases h
  | case3 plan w v rest hWord ih => exact ih hCount h
  | case4 plan w v rest hWord ih =>
      cases hRead : readInt v with
      | error halt =>
          rw [hRead] at h
          cases h
      | ok count =>
          rw [hRead] at h
          change (if count ≤ 0 then _ else _) = _ at h
          split at h
          · cases h
          · exact ih count (show 0 < count by omega) h
  | case5 plan w v rest hWord ih =>
      cases hRead : readText v with
      | error halt =>
          rw [hRead] at h
          cases h
      | ok kind =>
          rw [hRead] at h
          exact ih kind hCount h
  | case6 => cases h

/-- A key passes the filters if it fits the pattern and its value is of the kind. -/
def Passes (fits : Octets → Octets → Bool) (pattern? : Option Octets) (kind? : Option String)
    (key : Octets) (e : Entry) : Prop :=
  (∀ pattern ∈ pattern?, fits key pattern = true) ∧ ∀ kind ∈ kind?, e.value.kindName = kind

/-- The keys from a place on that pass the filters. -/
def left (fits : Octets → Octets → Bool) (pattern? : Option Octets) (kind? : Option String)
    (db : Database) (i : Nat) : List Octets :=
  ((sortedKeys db).drop i).filter (Plan.admits { cursor := 0, pattern?, kind? } fits db)

section Keys

variable (fits : Octets → Octets → Bool) (pattern? : Option Octets) (kind? : Option String)
  {db : Database}

/-- Keys that stand in order are not sorted anew. -/
theorem sortedKeys_eq_self (h : db.keys.Pairwise fun a b => ¬ b < a) : sortedKeys db = db.keys :=
  List.mergeSort_of_pairwise (h.imp fun h => by simpa using h)

theorem length_sortedKeys (db : Database) : (sortedKeys db).length = db.size := by
  rw [(perm_sortedKeys db).length_eq, Table.keys, List.length_map, Table.size]

/-- What is left at a place is what the next call answers and what is left behind that. -/
theorem left_eq (i n : Nat) :
    left fits pattern? kind? db i =
      (((sortedKeys db).drop i).take n).filter
          (Plan.admits { cursor := 0, pattern?, kind? } fits db) ++
        left fits pattern? kind? db (i + n) := by
  unfold left
  rw [← List.filter_append, ← List.drop_drop, List.take_append_drop]

theorem admits_iff {key : Octets} {e : Entry} (hEntry : db.get? key = some e) :
    Plan.admits { cursor := 0, pattern?, kind? } fits db key = true ↔
      Passes fits pattern? kind? key e := by
  unfold Plan.admits Passes
  rw [hEntry]
  cases pattern? <;> cases kind? <;> simp

/-- The keys of a database in order, each once. -/
theorem sortedKeys_rising (hDistinct : db.Distinct) : (sortedKeys db).Pairwise (· < ·) := by
  have hApart : (sortedKeys db).Nodup := (perm_sortedKeys db).nodup_iff.2 hDistinct
  refine ((pairwise_sortedKeys db).and hApart).imp fun {x y} h => ?_
  exact List.not_le.1 fun hBack => h.2 (List.le_antisymm h.1 hBack)

/-- At the first place all keys are left, in order and each once. -/
theorem left_zero (hDistinct : db.Distinct) :
    (left fits pattern? kind? db 0).Pairwise (· < ·) ∧
      ∀ key, key ∈ left fits pattern? kind? db 0 ↔
        ∃ e, db.get? key = some e ∧ Passes fits pattern? kind? key e := by
  constructor
  · exact (sortedKeys_rising hDistinct).sublist (List.filter_sublist.trans (List.drop_sublist 0 _))
  · intro key
    have hKey : key ∈ sortedKeys db ↔ ∃ e, db.get? key = some e := by
      rw [(perm_sortedKeys db).mem_iff, Table.keys, List.mem_map]
      constructor
      · rintro ⟨⟨k, e⟩, hMem, rfl⟩
        exact ⟨e, (Table.mem_entries_iff hDistinct k e).1 hMem⟩
      · rintro ⟨e, hEntry⟩
        exact ⟨(key, e), (Table.mem_entries_iff hDistinct key e).2 hEntry, rfl⟩
    unfold left
    rw [List.drop_zero, List.mem_filter, hKey]
    constructor
    · rintro ⟨⟨e, hEntry⟩, hAdmits⟩
      exact ⟨e, hEntry, (admits_iff fits pattern? kind? hEntry).1 hAdmits⟩
    · rintro ⟨e, hEntry, hPasses⟩
      exact ⟨⟨e, hEntry⟩, (admits_iff fits pattern? kind? hEntry).2 hPasses⟩

end Keys

/-! ## One call -/

section Call

variable (fits : Octets → Octets → Bool) {now : Float} {options : List Octets}
  {pattern? : Option Octets} {kind? : Option String} {count : Int} {s t : Store} {cursor : Octets}
  {i : Nat}

/-- The numeral of a place is read as the place. -/
theorem int?_of_intText? {n : Int} {numeral : String} (h : Number.intText? n = some numeral) :
    Number.int? (Octets.ofText numeral) = some n := by
  refine Number.int?_wholeText ?_
  unfold wholeText
  rw [h]

theorem intText?_zero : Number.intText? 0 = some "0" := by
  have hSmall : (0 : Int).natAbs < Number.tenTo Number.maxDigits := Number.tenTo_pos _
  rw [Number.intText?, if_pos hSmall]
  rfl

/-- A call at a place answers the keys behind it, as many as it asks for, and where they end. -/
theorem scanBy_eq (hStore : s.settleAll now s.selected = t)
    (hAsks : Asks options pattern? kind? count) (hCursor : Number.int? cursor = some (i : Int)) :
    let db := t.database t.selected
    ∃ n : Nat, count = n ∧ 0 < n ∧
      scanBy fits now cursor options s =
        ((match Number.intText? (if i + n < db.size then ((i + n : Nat) : Int) else 0) with
          | none => breakDown .tooManyDigits
          | some numeral => .ok (.list [.octets (Octets.ofText numeral),
              .list (((((sortedKeys db).drop i).take n).filter
                (Plan.admits { cursor := 0, pattern?, kind? } fits db)).map .octets)])), t) := by
  intro db
  have hCount : 0 < count := Plan.read_count_pos { cursor := 0 } (by decide) (hAsks 0)
  obtain ⟨n, rfl⟩ : ∃ n : Nat, count = n := ⟨count.toNat, by omega⟩
  have hRun : scanBy fits now cursor options s =
      (Plan.reply { cursor := i, pattern?, count := n, kind? } fits db, t) := by
    unfold scanBy
    rw [hCursor]
    show Store.given (Plan.read { cursor := (i : Int) } options) _ s = _
    rw [hAsks]
    subst hStore
    rfl
  have hKeys : Plan.keys { cursor := i, pattern?, count := n, kind? } fits db =
      (((sortedKeys db).drop i).take n).filter
        (Plan.admits { cursor := 0, pattern?, kind? } fits db) := by
    unfold Plan.keys
    rw [window_behind]
    rfl
  have hNext : Plan.nextCursor { cursor := i, pattern?, count := n, kind? } db.size =
      if i + n < db.size then ((i + n : Nat) : Int) else 0 := by
    unfold Plan.nextCursor
    dsimp only
    by_cases hInside : i + n < db.size
    · rw [if_pos (show (i : Int) + n < db.size by omega), if_pos hInside]
      rfl
    · rw [if_neg (show ¬ (i : Int) + n < db.size by omega), if_neg hInside]
  refine ⟨n, rfl, by omega, ?_⟩
  rw [hRun]
  unfold Plan.reply
  cases hText : Number.intText? (if i + n < db.size then ((i + n : Nat) : Int) else 0) <;>
    simp only [hNext, hKeys, hText]

/-- The reply of a call whose next cursor has a numeral. -/
theorem scanBy_ok {n : Nat} {numeral : String} (hStore : s.settleAll now s.selected = t)
    (hAsks : Asks options pattern? kind? n) (hCursor : Number.int? cursor = some (i : Int))
    (hText : Number.intText? (if i + n < (t.database t.selected).size then ((i + n : Nat) : Int)
      else 0) = some numeral) :
    let db := t.database t.selected
    scanBy fits now cursor options s =
      (.ok (.list [.octets (Octets.ofText numeral),
        .list (((((sortedKeys db).drop i).take n).filter
          (Plan.admits { cursor := 0, pattern?, kind? } fits db)).map .octets)]), t) := by
  intro db
  obtain ⟨m, hCount, -, hCall⟩ := scanBy_eq fits hStore hAsks hCursor
  obtain rfl : n = m := Int.ofNat.inj hCount
  rw [hCall, hText]

/-- A call at a place answers some keys and a later place, or all that are left and 0. -/
theorem scanBy_call (hStore : s.settleAll now s.selected = t)
    (hFew : (t.database t.selected).size ≤ Number.tenTo Number.maxDigits)
    (hAsks : Asks options pattern? kind? count) (hCursor : Number.int? cursor = some (i : Int)) :
    let db := t.database t.selected
    ∃ n : Nat, count = n ∧ 0 < n ∧
      ((db.size ≤ i + n ∧ scanBy fits now cursor options s =
          (.ok (.list [.octets (Octets.ofText "0"),
            .list ((left fits pattern? kind? db i).map .octets)]), t)) ∨
        (i + n < db.size ∧ ∃ next, Number.int? next = some ((i + n : Nat) : Int) ∧
          scanBy fits now cursor options s = (.ok (.list [.octets next,
            .list (((((sortedKeys db).drop i).take n).filter
              (Plan.admits { cursor := 0, pattern?, kind? } fits db)).map .octets)]), t))) := by
  intro db
  have hCount : 0 < count := Plan.read_count_pos { cursor := 0 } (by decide) (hAsks 0)
  obtain ⟨n, rfl⟩ : ∃ n : Nat, count = n := ⟨count.toNat, by omega⟩
  refine ⟨n, rfl, by omega, ?_⟩
  by_cases hInside : i + n < db.size
  · right
    have hText : Number.intText? ((i + n : Nat) : Int) = some (toString ((i + n : Nat) : Int)) := by
      have hSmall : i + n < Number.tenTo Number.maxDigits := Nat.lt_of_lt_of_le hInside hFew
      rw [Number.intText?, if_pos (show ((i + n : Nat) : Int).natAbs < _ from hSmall)]
    refine ⟨hInside, _, int?_of_intText? hText, scanBy_ok fits hStore hAsks hCursor ?_⟩
    rw [if_pos hInside, hText]
  · left
    have hAll : ((sortedKeys db).drop i).take n = (sortedKeys db).drop i := by
      refine List.take_of_length_le ?_
      rw [List.length_drop, length_sortedKeys]
      omega
    refine ⟨Nat.not_lt.1 hInside, ?_⟩
    unfold left
    rw [← hAll]
    refine scanBy_ok fits hStore hAsks hCursor ?_
    rw [if_neg hInside, intText?_zero]

/-- The cursor 0 is the first place. -/
theorem int?_zero : Number.int? (Octets.ofText "0") = some 0 := int?_of_intText? intText?_zero

end Call

/-! ## A whole iteration -/

/-- An iteration of calls, each at the cursor that the one before it answered, up to the first that
answers 0: from which call on, at which cursor and on which store it begins, how many calls it
takes, which keys they answer, one behind the other, and which store they leave. -/
inductive Iterates (call : Nat → Octets → Step) :
    Nat → Octets → Store → Nat → List Datum → Store → Prop
  | last {j : Nat} {cursor : Octets} {keys : List Datum} {s after : Store}
      (hCall : call j cursor s =
        (.ok (.list [.octets (Octets.ofText "0"), .list keys]), after)) :
      Iterates call j cursor s 1 keys after
  | next {j n : Nat} {cursor next : Octets} {keys others : List Datum} {s between after : Store}
      (hCall : call j cursor s = (.ok (.list [.octets next, .list keys]), between))
      (hNext : next ≠ Octets.ofText "0")
      (hRest : Iterates call (j + 1) next between n others after) :
      Iterates call j cursor s (n + 1) (keys ++ others) after

/-- From the cursor 0 on, an iteration ends after no more calls than there are live keys, or after
one. It answers the live keys that pass, in order and each once, and it takes the expired keys out
of the selected database. -/
def Covers (now : Float) (s : Store) (passes : Octets → Entry → Prop)
    (call : Nat → Octets → Step) : Prop :=
  ∃ (calls : Nat) (keys : List Octets),
    Iterates call 0 (Octets.ofText "0") s calls (keys.map .octets) (s.settleAll now s.selected) ∧
      calls ≤ max 1 ((s.database s.selected).liveKeys now).length ∧ keys.Pairwise (· < ·) ∧
      ∀ key, key ∈ keys ↔ ∃ e, s.live? now s.selected key = some e ∧ passes key e

section Iteration

variable (fits : Octets → Octets → Bool) {now : Float} {options : Nat → List Octets}
  {pattern? : Option Octets} {kind? : Option String} {counts : Nat → Int} {s t : Store}

/-- From any place on, an iteration answers what is left there. -/
theorem iterates_from (hSettled : t.settleAll now t.selected = t)
    (hFew : (t.database t.selected).size ≤ Number.tenTo Number.maxDigits)
    (hAsks : ∀ j, Asks (options j) pattern? kind? (counts j)) (i j : Nat) (cursor : Octets)
    (s : Store) (hStore : s.settleAll now s.selected = t)
    (hCursor : Number.int? cursor = some (i : Int)) :
    ∃ calls, Iterates (fun j cursor => scanBy fits now cursor (options j)) j cursor s calls
        ((left fits pattern? kind? (t.database t.selected) i).map .octets) t ∧
      calls ≤ max 1 ((t.database t.selected).size - i) := by
  obtain ⟨n, -, hSome, ⟨hLast, hCall⟩ | ⟨hInside, next, hNext, hCall⟩⟩ :=
    scanBy_call fits hStore hFew (hAsks j) hCursor
  · exact ⟨1, .last hCall, by omega⟩
  · obtain ⟨calls, hRest, hCalls⟩ := iterates_from hSettled hFew hAsks (i + n) (j + 1)
      next t hSettled hNext
    have hOther : next ≠ Octets.ofText "0" := by
      rintro rfl
      rw [int?_zero] at hNext
      have := Option.some.inj hNext
      omega
    refine ⟨calls + 1, ?_, by omega⟩
    rw [left_eq fits pattern? kind? i n, List.map_append]
    exact .next hCall hOther hRest
termination_by (t.database t.selected).size - i

/-- Taking the expired keys out twice is taking them out once. -/
theorem settleAll_settled (s : Store) (now : Float) (i : Nat) :
    (s.settleAll now i).settleAll now i = s.settleAll now i := by
  have hTwice : ((s.settleAll now i).database i).settleAll now = (s.database i).settleAll now := by
    rw [Store.database_settleAll, Database.settleAll_settleAll]
  show (s.settleAll now i).setDatabase i (((s.settleAll now i).database i).settleAll now) = _
  rw [hTwice]
  unfold Store.settleAll Store.setDatabase
  rw [List.set_set]

/-- From the cursor 0 on, an iteration covers the live keys. -/
theorem covers_scanBy (hApart : s.KeysApart)
    (hFew : ((s.database s.selected).liveKeys now).length ≤ Number.tenTo Number.maxDigits)
    (hAsks : ∀ j, Asks (options j) pattern? kind? (counts j)) :
    Covers now s (Passes fits pattern? kind?)
      fun j cursor => scanBy fits now cursor (options j) := by
  have hDistinct : (s.database s.selected).Distinct := hApart.database s.selected
  have hDatabase : (s.settleAll now s.selected).database (s.settleAll now s.selected).selected =
      (s.database s.selected).settleAll now := Store.database_settleAll s now s.selected
  have hSize : ((s.database s.selected).settleAll now).size =
      ((s.database s.selected).liveKeys now).length := by
    rw [← Database.keys_settleAll hDistinct, Table.keys, List.length_map, Table.size]
  obtain ⟨calls, hIterates, hCalls⟩ := iterates_from fits
    (settleAll_settled s now s.selected) (by rw [hDatabase, hSize]; exact hFew) hAsks 0 0
    (Octets.ofText "0") s rfl int?_zero
  rw [hDatabase] at hIterates hCalls
  obtain ⟨hRising, hKeys⟩ := left_zero fits pattern? kind?
    (Table.distinct_filter hDistinct fun _ e => !e.isExpired now)
  refine ⟨calls, _, hIterates, by omega, hRising, fun key => ?_⟩
  have hShows : ((s.database s.selected).settleAll now).get? key =
      s.live? now s.selected key := Database.get?_settleAll hDistinct now key
  rw [← hShows]
  exact hKeys key

end Iteration

end Scan

namespace Store

/-- A full scan of the selected database, each call with the same filters and any number of keys,
comes to its end and answers the live keys that pass the filters, in order and each once.

* So it is with any matcher of patterns.
* So it is with all commands that ask for it, with the matcher of the store. -/
theorem scan_exactly_once (now : Float) {s : Store} (hApart : s.KeysApart)
    (hFew : ((s.database s.selected).liveKeys now).length ≤ Number.tenTo Number.maxDigits)
    {options : Nat → List Octets} {pattern? : Option Octets} {kind? : Option String}
    {counts : Nat → Int} (hAsks : ∀ j, Scan.Asks (options j) pattern? kind? (counts j)) :
    (∀ fits : Octets → Octets → Bool, Scan.Covers now s (Scan.Passes fits pattern? kind?)
      fun j cursor => Scan.scanBy fits now cursor (options j)) ∧
    ∀ c : Nat → Octets → Command,
      (∀ j cursor, (c j cursor).request? = some (.scan, cursor :: options j)) →
      Scan.Covers now s (Scan.Passes Octets.fitsGlob pattern? kind?)
        fun j cursor => run now (c j cursor) := by
  refine ⟨fun fits => Scan.covers_scanBy fits hApart hFew hAsks, fun c hRequest => ?_⟩
  have hRun : (fun j cursor => run now (c j cursor)) =
      fun j cursor => Scan.scanBy Octets.fitsGlob now cursor (options j) := by
    funext j cursor
    have hMany : 1 ≤ (options j).length + 1 := Nat.le_add_left 1 _
    exact run_of_open (hRequest j cursor) rfl hMany
  rw [hRun]
  exact Scan.covers_scanBy Octets.fitsGlob hApart hFew hAsks

/-- Three keys are scanned for strings, two at a time. One of them has expired. -/
theorem scan_exactly_once_strings :
    let c (_ : Nat) (cursor : Octets) : Command :=
      ⟨.scan, [.octets cursor, .text "TYPE", .text "STRING", .text "COUNT", .text "2"]⟩
    let s := single [([98], { value := .string [118] }), ([97], { value := .list [.octets [120]] }),
      ([99], { value := .string [], deadline? := some 1.0 })]
    s.KeysApart ∧ ((s.database s.selected).liveKeys 2.0).length ≤ Number.tenTo Number.maxDigits ∧
      Scan.Asks (["TYPE", "STRING", "COUNT", "2"].map Octets.ofText) none (some "string") 2 ∧
      Scan.Covers 2.0 s (Scan.Passes Octets.fitsGlob none (some "string"))
        fun j cursor => run 2.0 (c j cursor) := by
  intro c s
  have hApart : s.KeysApart := by
    refine List.forall_mem_singleton.2 ?_
    unfold Table.Distinct
    decide +kernel
  have hFew : ((s.database s.selected).liveKeys 2.0).length ≤ Number.tenTo Number.maxDigits := by
    decide +kernel
  have hLower : "STRING".toLower = "string" := by decide +kernel
  have hTwo : Number.int? (Octets.ofText "2") = some 2 := by decide +kernel
  have hAsks : Scan.Asks (["TYPE", "STRING", "COUNT", "2"].map Octets.ofText) none (some "string")
      2 :=
    hLower ▸ Scan.asks_words none (some "STRING") hTwo (by decide)
  exact ⟨hApart, hFew, hAsks, (scan_exactly_once 2.0 hApart hFew fun _ => hAsks).2 c fun _ _ => rfl⟩

end Store

end BatchStore
