import BatchStore.Proofs.Batch.Requests
import BatchStore.Proofs.Options.Ranges
import BatchStore.Proofs.Options.Searches
import BatchStore.Proofs.Options.Transfers
import BatchStore.Proofs.Options.Writes
import BatchStore.Proofs.Store.Understood

/-!
# Typed calls

A typed call has whole numbers where it counts, numbers for scores and coordinates, and options of
its own class. Keys, values and the like may be anything, since the call looks at them itself.

What comes out of a typed call is known word by word: a number is one word, a mapping two words for
each of its pairs, a place three, and options are read to what they say.
-/

namespace BatchStore

/-! ## What is typed -/

/-- Options of one class, if there are any, each as it ought to be. -/
def Options.AreOf {α : Type} (make : α → Options) (typed : α → Prop) (options? : Option Options) :
    Prop := ∀ o ∈ options?, ∃ a, o = make a ∧ typed a

/-- A mapping to numbers. -/
def Datum.MapsToNumbers (v : Datum) : Prop := ∀ ps, v = .mapping ps → ∀ p ∈ ps, p.2.IsNumber

/-- A call with values of the types that it asks for. A custom command asks for none. -/
def Call.IsTyped : Call → Prop
  | custom _ => False
  | select index => index.IsWhole
  | expire _ number | move _ number | incrby _ number | decrby _ number => number.IsWhole
  | copy _ _ database _ => database.IsWholeOrNull
  | scan _ options? => Options.AreOf .scan ScanOptions.IsTyped options?
  | restore _ lifetime _ options? =>
    lifetime.IsWhole ∧ Options.AreOf .restore RestoreOptions.IsTyped options?
  | set _ _ options? => Options.AreOf .set SetOptions.IsTyped options?
  | getex _ options? => Options.AreOf .getex GetExOptions.IsTyped options?
  | lrange _ first last => first.IsWhole ∧ last.IsWhole
  | lpos _ _ options? => Options.AreOf .lpos LPosOptions.IsTyped options?
  | zadd _ scores => scores.MapsToNumbers
  | zrange _ query => ∃ q, query = .range q ∧ q.IsTyped
  | zpopmin _ options? | zpopmax _ options? =>
    Options.AreOf .zpop (fun o => o.count.IsWhole) options?
  | geoadd _ places options? =>
    (∀ p ∈ places, ∃ point, p.2 = .place point ∧ point.IsTyped) ∧
      Options.AreOf .geoadd (fun _ => True) options?
  | functionRestore _ policy? => ∀ c ∈ policy?, ∃ p, c = .restorePolicy p
  | _ => True

/-! ## Words -/

theorem Datum.IsWhole.isNumber {v : Datum} (h : v.IsWhole) : v.IsNumber := by
  obtain ⟨n, rfl⟩ := h
  trivial

/-- A number begins like one when it is written. -/
theorem begins_numberText {v : Datum} (hNumber : v.IsNumber) {s : String}
    (h : numberText v = .ok s) :
    ∃ b rest, Octets.ofText s = b :: rest ∧ Number.beginsNumber b = true := by
  cases v with
  | int n =>
      unfold numberText at h
      exact Number.begins_wholeText h
  | real x =>
      cases h
      exact Number.begins_realText hNumber
  | null | bool | text | octets | list | tuple | set | mapping | refusal | other =>
      exact hNumber.elim

/-- A number is added as one word. -/
theorem ArgList.add_number {v : Datum} (hNumber : v.IsNumber) {args after : ArgList}
    (h : (ArgList.add args v).toExcept = .ok after) :
    ∃ s, numberText v = .ok s ∧ after = args ++ [.text s] := by
  cases v with
  | int n =>
      unfold ArgList.add partsOf at h
      cases hText : wholeText n with
      | error e =>
          rw [hText] at h
          cases h
      | ok s =>
          rw [hText] at h
          cases h
          exact ⟨s, hText, rfl⟩
  | real x =>
      cases h
      exact ⟨realText x, rfl, rfl⟩
  | null | bool | text | octets | list | tuple | set | mapping | refusal | other =>
      exact hNumber.elim

theorem Arg.checkEach_length {vs : List Datum} {args : ArgList} (h : checkEach vs = .ok args) :
    args.length = vs.length := by
  induction vs generalizing args with
  | nil =>
      cases h
      rfl
  | cons v vs ih =>
      obtain ⟨a, -, hAfter⟩ := ok_of_bind h
      obtain ⟨as, hRest, hDone⟩ := ok_of_bind hAfter
      cases hDone
      rw [List.length_cons, List.length_cons, ih hRest]

/-- What is not nothing has an argument in it. -/
theorem Arg.checkAll_ne_nil {v w : Datum} {what : String} (hSome : Call.nonempty v what = .ok w)
    {args : ArgList} (h : checkAll w = .ok args) : args ≠ [] := by
  have hFull : v.isNothing = false ∧ w = v := by
    unfold Call.nonempty at hSome
    cases hNothing : v.isNothing with
    | true =>
        rw [hNothing] at hSome
        cases hSome
    | false =>
        rw [hNothing] at hSome
        cases hSome
        exact ⟨rfl, rfl⟩
  obtain ⟨hFull, rfl⟩ := hFull
  rintro rfl
  have hEach {vs : List Datum} (hEmpty : checkEach vs = .ok []) : vs = [] :=
    List.length_eq_zero_iff.1 (checkEach_length hEmpty).symm
  unfold checkAll at h
  cases w with
  | text | octets => cases h
  | list vs | tuple vs | set vs =>
      rw [hEach h] at hFull
      cases hFull
  | mapping ps =>
      rw [List.map_eq_nil_iff.1 (hEach h)] at hFull
      cases hFull
  | null | bool | int | real | refusal | other => cases h

theorem pairUp_cons {a b : Octets} {rest : List Octets} (h : (pairUp rest).isSome = true) :
    (pairUp (a :: b :: rest)).isSome = true := by
  show ((pairUp rest).map _).isSome = true
  rw [Option.isSome_map]
  exact h

/-- The words of a mapping are taken in pairs, two for each of its pairs. -/
theorem Call.pairArgs_eq_ok {ps : List (Datum × Datum)} {args : ArgList}
    (h : pairArgs ps = .ok args) :
    args.length = 2 * ps.length ∧ (pairUp (octetsOf args)).isSome = true := by
  induction ps generalizing args with
  | nil =>
      cases h
      exact ⟨rfl, rfl⟩
  | cons p rest ih =>
      obtain ⟨key, value⟩ := p
      obtain ⟨a, -, hAfter⟩ := ok_of_bind h
      obtain ⟨b, -, hAfter⟩ := ok_of_bind hAfter
      obtain ⟨others, hOthers, hDone⟩ := ok_of_bind hAfter
      cases hDone
      obtain ⟨hLength, hPairs⟩ := ih hOthers
      refine ⟨?_, pairUp_cons hPairs⟩
      rw [List.length_cons, List.length_cons, List.length_cons, hLength]
      omega

theorem Call.scoreArgs_eq_ok {ps : List (Datum × Datum)} (hTyped : ∀ p ∈ ps, p.2.IsNumber)
    {args : ArgList} (h : scoreArgs ps = .ok args) :
    args.length = 2 * ps.length ∧ (pairUp (octetsOf args)).isSome = true := by
  induction ps generalizing args with
  | nil =>
      cases h
      exact ⟨rfl, rfl⟩
  | cons p rest ih =>
      obtain ⟨member, score⟩ := p
      obtain ⟨word, hScore, hAfter⟩ := ok_of_bind h
      obtain ⟨a, -, hAfter⟩ := ok_of_bind hAfter
      obtain ⟨others, hOthers, hDone⟩ := ok_of_bind hAfter
      cases hDone
      obtain ⟨s, -, rfl⟩ := ArgList.add_number (hTyped (member, score) List.mem_cons_self) hScore
      obtain ⟨hLength, hPairs⟩ := ih (fun p hMem => hTyped p (List.mem_cons_of_mem _ hMem)) hOthers
      refine ⟨?_, pairUp_cons hPairs⟩
      rw [List.nil_append, List.singleton_append, List.length_cons, List.length_cons,
        List.length_cons, hLength]
      omega

/-- A mapping that is not nothing has a pair in it. -/
theorem Call.pairs_eq_ok {v : Datum} {what : String} {ps : List (Datum × Datum)}
    (h : pairs v what = .ok ps) : v = .mapping ps ∧ ps ≠ [] := by
  obtain ⟨w, hSome, hRest⟩ := ok_of_bind h
  unfold nonempty at hSome
  cases hNothing : v.isNothing with
  | true =>
      rw [hNothing] at hSome
      cases hSome
  | false =>
      rw [hNothing] at hSome
      cases hSome
      cases v with
      | mapping qs =>
          cases hRest
          refine ⟨rfl, ?_⟩
          rintro rfl
          cases hNothing
      | null | bool | int | real | text | octets | list | tuple | set | refusal | other =>
          cases hRest

/-! ## Places -/

theorem GeoPoint.toArgs_eq_ok {p : GeoPoint} {words : ArgList} (h : p.toArgs = .ok words) :
    ∃ s t, numberText p.longitude = .ok s ∧ numberText p.latitude = .ok t ∧
      words = [.text s, .text t] := by
  obtain ⟨inLongitude, -, hAfter⟩ := ok_of_bind h
  cases inLongitude with
  | false =>
      obtain ⟨shown, -, hNever⟩ := ok_of_bind hAfter
      cases hNever
  | true =>
      obtain ⟨inLatitude, -, hAfter⟩ := ok_of_bind hAfter
      cases inLatitude with
      | false =>
          obtain ⟨shown, -, hNever⟩ := ok_of_bind hAfter
          cases hNever
      | true =>
          obtain ⟨s, hLongitude, hAfter⟩ := ok_of_bind hAfter
          obtain ⟨t, hLatitude, hDone⟩ := ok_of_bind hAfter
          cases hDone
          exact ⟨s, t, hLongitude, hLatitude, rfl⟩

/-- The words of named places are taken in threes, three for each place. -/
theorem namedPlaces_triples {places : List (Datum × Options)}
    (hTyped : ∀ p ∈ places, ∃ point, p.2 = .place point ∧ point.IsTyped) {words : ArgList}
    (h : namedPlaces places = .ok words) :
    words.length = 3 * places.length ∧ ∃ ts, Places.triples (octetsOf words) = some ts ∧
      ts.length = places.length := by
  induction places generalizing words with
  | nil =>
      cases h
      exact ⟨rfl, [], rfl, rfl⟩
  | cons place rest ih =>
      obtain ⟨name, options⟩ := place
      obtain ⟨point, rfl, -⟩ := hTyped _ List.mem_cons_self
      obtain ⟨front, hPoint, hAfter⟩ := ok_of_bind h
      obtain ⟨a, -, hAfter⟩ := ok_of_bind hAfter
      obtain ⟨others, hOthers, hDone⟩ := ok_of_bind hAfter
      cases hDone
      obtain ⟨s, t, -, -, rfl⟩ := GeoPoint.toArgs_eq_ok hPoint
      obtain ⟨hLength, ts, hTriples, hCount⟩ :=
        ih (fun p hMem => hTyped p (List.mem_cons_of_mem _ hMem)) hOthers
      refine ⟨?_, (Octets.ofText s, Octets.ofText t, a.toOctets) :: ts, ?_, ?_⟩
      · show others.length + 1 + 1 + 1 = 3 * (rest.length + 1)
        omega
      · show (Places.triples (octetsOf others)).map _ = _
        rw [hTriples]
        rfl
      · rw [List.length_cons, List.length_cons, hCount]

/-- The words of named places begin with a number. -/
theorem namedPlaces_begins {place : Datum × Options} {rest : List (Datum × Options)}
    (hTyped : ∃ point, place.2 = .place point ∧ point.IsTyped) {words : ArgList}
    (h : namedPlaces (place :: rest) = .ok words) :
    ∃ b w others, octetsOf words = (b :: w) :: others ∧ Number.beginsNumber b = true := by
  obtain ⟨name, options⟩ := place
  obtain ⟨point, rfl, hPointTyped⟩ := hTyped
  obtain ⟨front, hPoint, hAfter⟩ := ok_of_bind h
  obtain ⟨a, -, hAfter⟩ := ok_of_bind hAfter
  obtain ⟨others, -, hDone⟩ := ok_of_bind hAfter
  cases hDone
  obtain ⟨s, t, hLongitude, -, rfl⟩ := GeoPoint.toArgs_eq_ok hPoint
  obtain ⟨b, w, hText, hBegins⟩ := begins_numberText hPointTyped.longitude hLongitude
  refine ⟨b, w, Octets.ofText t :: octetsOf (a :: others), ?_, hBegins⟩
  show Octets.ofText s :: Octets.ofText t :: octetsOf (a :: others) = _
  rw [hText]

/-! ## Counts of keys -/

/-- The count of the keys of a function is read back, if it is read at all. -/
theorem Number.int?_count {n : Nat} {m : Int} (h : int? (Octets.ofText (toString n)) = some m) :
    m = n := by
  have hText : Octets.ofText (toString n) = digitOctets (Nat.toDigits 10 n) := by
    show Octets.ofText n.repr = _
    rw [Nat.repr_eq_ofList_toDigits, ofText_digits (isDigit_toDigits n)]
  have hDigits := all_digitOctets (isDigit_toDigits n)
  rw [hText] at h
  unfold int? at h
  rw [numeral?_plain (all_plain_of_digits hDigits)] at h
  dsimp only [bind, Option.bind] at h
  rw [splitSign_digits hDigits, ofDigits_toDigits] at h
  dsimp only at h
  split at h
  · cases h
  · exact (Option.some.inj h).symm

end BatchStore
