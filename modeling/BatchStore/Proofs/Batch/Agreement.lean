import BatchStore.Proofs.Batch.Formed
import BatchStore.Proofs.Batch.Typed

/-!
# Typed calls and the store agree

A call writes a command, and the store reads it. The two sides meet at the words in between, and
`Agreement` says that they agree there: a typed call never fails for its list of arguments, the
store never calls its command malformed, and what the store reads from the words of options is what
the options say, in whatever order the options stand.

The theorem goes through the calls one by one. For each, the words of its request are known from
`Typed`, and the command of its type understands them by `Understood`; where options are among them,
they are read to what they say by the modules on options, and what they say is in order.
-/

namespace BatchStore

/-! ## Options are understood -/

section Options

variable {words : ArgList}

/-- An expiry can be no deadline, but its words make sense. -/
theorem Expiry.deadline?_understood (now : Float) (e : Expiry) : Understood (e.deadline? now) := by
  unfold Expiry.deadline?
  split
  · exact (Understood.deadlineOf now _ _).map some
  · exact .ok _

/-- Options of SET that are built come to words that the loop of SET takes in. -/
theorem SetOptions.words_understood {o : SetOptions} (hTyped : o.IsTyped)
    (h : o.toArgs = .ok words) (now : Float) :
    Understood (Strings.SetPlan.read now {} (octetsOf words)) := by
  rw [SetOptions.toArgs_eq] at h
  obtain ⟨groups, hGroups, rfl⟩ := ok_of_map h
  rw [SetOptions.read_eq now hTyped hGroups (.refl _)]
  have hDeadline : Understood (o.expiry?.elim (.ok none) (Expiry.deadline? now)) := by
    cases o.expiry? with
    | none => exact .ok _
    | some e => exact e.deadline?_understood now
  exact hDeadline.bind fun _ _ => .ok _

/-- Options of GETEX that are built come to words that GETEX takes in. -/
theorem GetExOptions.words_understood {o : GetExOptions} (hTyped : o.IsTyped)
    (h : o.toArgs = .ok words) (now : Float) :
    (Strings.getex now (octetsOf words)).Understands := by
  rw [GetExOptions.step_eq now hTyped h]
  refine .ofExpect (fun _ => rfl) fun seen a? => ?_
  split
  · exact .ok _
  · rename_i e _
    exact (e.deadline?_understood now).bind fun _ _ => .ok _

/-- Options of LPOS that are built come to words that the loop of LPOS takes in. -/
theorem LPosOptions.words_understood {o : LPosOptions} (hTyped : o.IsTyped)
    (h : o.toArgs = .ok words) : Understood (Lists.Search.read {} (octetsOf words)) := by
  rw [LPosOptions.toArgs_eq] at h
  obtain ⟨groups, hGroups, rfl⟩ := ok_of_map h
  rw [LPosOptions.read_eq hTyped hGroups (.refl _)]
  unfold LPosOptions.plan
  split
  · exact .refused rfl
  · exact .ok _

/-- Options of SCAN that are built come to words that the loop of SCAN takes in. -/
theorem ScanOptions.words_understood {o : ScanOptions} (hTyped : o.IsTyped)
    (h : o.toArgs = .ok words) (cursor : Int) :
    Understood (Scan.Plan.read { cursor } (octetsOf words)) := by
  rw [ScanOptions.toArgs_eq] at h
  obtain ⟨groups, hGroups, rfl⟩ := ok_of_map h
  rw [ScanOptions.read_eq hTyped hGroups (.refl _)]
  exact .ok _

/-- Options of RESTORE that are built come to words that the loop of RESTORE takes in. -/
theorem RestoreOptions.words_understood {o : RestoreOptions} (hTyped : o.IsTyped)
    (h : o.toArgs = .ok words) : Understood (Backup.RestorePlan.read {} (octetsOf words)) := by
  rw [RestoreOptions.toArgs_eq] at h
  obtain ⟨groups, hGroups, rfl⟩ := ok_of_map h
  rw [RestoreOptions.read_eq hTyped hGroups (.refl _)]
  exact .ok _

/-- Options of COPY that are built come to words that the loop of COPY takes in, in every store. -/
theorem CopyOptions.words_understood {o : CopyOptions} (hTyped : o.IsTyped) {groups : List ArgList}
    (h : o.groups = .ok groups) (s : Store) :
    Understood (Keys.CopyPlan.read s { target := s.selected } (octetsOf groups.flatten)) := by
  rw [CopyOptions.read_eq s hTyped h (.refl _)]
  unfold CopyOptions.plan
  split
  · exact .ok _
  · exact (Understood.index? s _).bind fun _ _ => .ok _

/-- Options that are not there are options that say nothing. -/
theorem Options.words_of {α : Type} {make : α → Options} {typed : α → Prop}
    {toArgs : α → Except Failure ArgList} {options? : Option Options}
    (nothing : α) (hNothing : typed nothing) (hEmpty : toArgs nothing = .ok [])
    (hMake : ∀ a, (make a).toArgs = toArgs a) (hTyped : AreOf make typed options?)
    (h : wordsOf options? = .ok words) : ∃ a, typed a ∧ toArgs a = .ok words := by
  cases options? with
  | none =>
      cases h
      exact ⟨nothing, hNothing, hEmpty⟩
  | some o =>
      obtain ⟨a, rfl, ha⟩ := hTyped o rfl
      exact ⟨a, ha, (hMake a).symm.trans h⟩

end Options

theorem Bound.IsMember.read {b : Bound} (h : b.IsMember) :
    ∃ e, SortedSets.LexEnd.read b.word.toOctets = .ok e := by
  rcases h with ⟨exclusive, v, hMember⟩ | ⟨u, rfl⟩
  · exact ⟨_, read_ofMember hMember⟩
  · exact ⟨_, read_ofAllMembers u⟩

/-- The ends of a range are such as the range goes by. -/
theorem RangeQuery.plan_fits {q : RangeQuery} (hTyped : q.IsTyped) {first last : Arg}
    (h : q.ends = .ok (first, last)) : q.plan.Fits first.toOctets last.toOctets := by
  cases q with
  | byIndex a b reverse =>
      exact ⟨fun _ => rfl, (fun hNever => nomatch hNever), fun hNever => nomatch hNever⟩
  | byScore a b reverse limit? =>
      exact ⟨(fun hNever => nomatch hNever), (fun hNever => nomatch hNever),
        fun hNever => nomatch hNever⟩
  | byLex a b reverse limit? =>
      cases h
      exact ⟨(fun hNever => nomatch hNever), fun _ => hTyped.1.read, fun _ => hTyped.2.1.read⟩

/-! ## Requests that the store takes -/

/-- A request with as many arguments as its type admits, in words that the store understands. -/
structure Call.Request.Taken (r : Call.Request) : Prop where
  many : r.1.admits r.2.length = true
  understands : ∀ now, Store.Understands (Store.step now r.1 (octetsOf r.2))

namespace Call

variable {t : CommandType} {r : Request}

/-- A request of one key is taken if the type admits it and its step understands it. -/
theorem onKey_taken {key : Datum} (h : onKey t key = .ok r) (hMany : t.admits 1 = true)
    (hStep : ∀ now key, Store.Understands (Store.step now t [key])) : r.Taken := by
  obtain ⟨a, -, rfl⟩ := onKey_eq_ok h
  exact ⟨hMany, fun now => hStep now _⟩

/-- A request of a key and a word is taken if the type admits two arguments. -/
theorem onKeyAnd_taken {key other : Datum} (h : onKeyAnd t key other = .ok r)
    (hMany : t.admits 2 = true)
    (hStep : ∀ now key word, Store.Understands (Store.step now t [key, word])) : r.Taken := by
  obtain ⟨a, b, -, -, rfl⟩ := onKeyAnd_eq_ok h
  exact ⟨hMany, fun now => hStep now _ _⟩

/-- A request of a key and a whole number is taken if the type admits two arguments. -/
theorem onKeyNumber_taken {key number : Datum} (hWhole : number.IsWhole)
    (h : onKeyNumber t key number = .ok r) (hMany : t.admits 2 = true)
    (hStep : ∀ now key word, Store.Understands (Store.step now t [key, word])) : r.Taken := by
  obtain ⟨a, args, -, hNumber, rfl⟩ := onKeyNumber_eq_ok h
  obtain ⟨s, -, rfl⟩ := ArgList.add_number hWhole.isNumber hNumber
  exact ⟨hMany, fun now => hStep now _ _⟩

/-- A request of any number of keys is taken if the type admits one and more. -/
theorem onKeys_taken {keys : Datum} (h : onKeys t keys = .ok r) (hOpen : t.maxArity? = none)
    (hMany : t.minArity ≤ 1) (hStep : ∀ now keys, Store.Understands (Store.step now t keys)) :
    r.Taken := by
  obtain ⟨v, args, hSome, hEach, rfl⟩ := onKeys_eq_ok h
  have hLength := List.length_pos_iff.2 (Arg.checkAll_ne_nil hSome hEach)
  exact ⟨CommandType.admits_open hOpen (by dsimp only; omega), fun now => hStep now _⟩

/-- A request of a key and any number of words is taken if the type admits two arguments and
more. -/
theorem onKeyEach_taken {key others : Datum} {what : String}
    (h : onKeyEach t key others what = .ok r) (hOpen : t.maxArity? = none)
    (hMany : t.minArity ≤ 2)
    (hStep : ∀ now key words, Store.Understands (Store.step now t (key :: words))) : r.Taken := by
  obtain ⟨a, v, args, -, hSome, hEach, rfl⟩ := onKeyEach_eq_ok h
  have hLength := List.length_pos_iff.2 (Arg.checkAll_ne_nil hSome hEach)
  refine ⟨CommandType.admits_open hOpen ?_, fun now => hStep now _ _⟩
  rw [List.length_cons]
  omega

/-- A function call says how many of its words are keys. -/
theorem functionCall_taken {function keys arguments : Datum}
    (h : functionCall t function keys arguments = .ok r) (hOpen : t.maxArity? = none)
    (hMany : t.minArity ≤ 2) (hStep : ∀ now function numkeys words,
      (∀ n, Number.int? numkeys = some n → 0 ≤ n ∧ n ≤ (words : List Octets).length) →
        Store.Understands (Store.step now t (function :: numkeys :: words))) : r.Taken := by
  obtain ⟨ks, f, as, -, -, -, rfl⟩ := functionCall_eq_ok h
  refine ⟨CommandType.admits_open hOpen ?_, fun now => hStep now _ _ (octetsOf (ks ++ as)) ?_⟩
  · show t.minArity ≤ (ks ++ as).length + 1 + 1
    omega
  · intro n hCount
    have hKeys := Number.int?_count hCount
    have hLength : (octetsOf (ks ++ as)).length = ks.length + as.length := by
      unfold octetsOf
      rw [List.length_map, List.length_append]
    omega

theorem ping_taken {cluster : Bool} {message : Datum} (h : request cluster (ping message) = .ok r) :
    r.Taken := by
  by_cases hNull : message = .null
  · subst hNull
    cases h
    exact ⟨rfl, fun now => .answer _⟩
  · have hKey : onKey .ping message = .ok r := by
      rw [← h]
      cases message <;> first | rfl | exact absurd rfl hNull
    exact onKey_taken hKey rfl fun _ _ => .answer _

/-- The words of a transfer are those of its options behind the two keys. -/
theorem copy_eq {a b : Arg} {source destination : Datum} (hSource : Arg.check source = .ok a)
    (hDestination : Arg.check destination = .ok b) {o : CopyOptions} (hTyped : o.IsTyped) :
    request false (copy source destination o.database o.replace) =
      o.groups.map fun groups => (.copy, a :: b :: groups.flatten) := by
  obtain ⟨database, replace⟩ := o
  have hFlat (words : ArgList) :
      [a, b] ++ words ++ (if replace then [Keyword.replace.arg] else []) =
        a :: b :: [words, if replace then [Keyword.replace.arg] else []].flatten := by
    simp
  show copyRequest false source destination database replace = _
  unfold copyRequest CopyOptions.groups
  rw [hSource, hDestination]
  dsimp only [bind, Except.bind]
  rcases hTyped with hNull | ⟨n, hWhole⟩
  · dsimp only at hNull
    subst hNull
    exact congrArg (fun words => Except.ok (CommandType.copy, words)) (hFlat [])
  · dsimp only at hWhole
    subst hWhole
    have hAdd : (ArgList.add [Keyword.db.arg] (.int n)).toExcept =
        (wholeText n).map fun s => [Keyword.db.arg, .text s] := by
      unfold ArgList.add ArgList.partsOf
      cases wholeText n <;> rfl
    have hOption : numberOption .db (.int n) =
        (wholeText n).map fun s => [Keyword.db.arg, .text s] := by
      have hText : numberText (.int n) = wholeText n := by
        unfold numberText
        rfl
      unfold numberOption
      dsimp only
      rw [hText]
      cases wholeText n <;> rfl
    dsimp only
    rw [hOption, if_neg Bool.false_ne_true, hAdd]
    cases wholeText n with
    | error e => rfl
    | ok s => exact congrArg (fun words => Except.ok (CommandType.copy, words)) (hFlat _)

/-- COPY is taken with any database that is a whole number or none. -/
theorem copy_taken {cluster : Bool} {source destination database : Datum} {replace : Bool}
    (hTyped : database.IsWholeOrNull)
    (h : request cluster (copy source destination database replace) = .ok r) : r.Taken := by
  obtain ⟨a, b, words, hSource, hDestination, hDatabase, -⟩ := request_copy h
  have hFree : request false (copy source destination database replace) = .ok r := by
    cases cluster with
    | false => exact h
    | true =>
        rcases hDatabase with ⟨rfl, -⟩ | ⟨-, hNever, -⟩
        · exact h
        · cases hNever
  rw [copy_eq hSource hDestination (o := ⟨database, replace⟩) hTyped] at hFree
  obtain ⟨groups, hGroups, rfl⟩ := ok_of_map hFree
  refine ⟨CommandType.admits_open rfl ?_, fun now => ?_⟩
  · show 2 ≤ groups.flatten.length + 1 + 1
    omega
  · exact copy_understands _ _ fun s =>
      CopyOptions.words_understood (o := ⟨database, replace⟩) hTyped hGroups s

theorem scan_taken {cursor : Datum} {options? : Option Options}
    (hTyped : Options.AreOf .scan ScanOptions.IsTyped options?)
    (h : onKeyWith .scan cursor options? = .ok r) : r.Taken := by
  obtain ⟨a, words, -, hWords, rfl⟩ := onKeyWith_eq_ok h
  refine ⟨CommandType.admits_open rfl ?_, fun now => scan_understands _ fun n => ?_⟩
  · show 1 ≤ words.length + 1
    omega
  · obtain ⟨o, ho, hArgs⟩ :=
      Options.words_of {} (.inl rfl) rfl (fun _ => rfl) hTyped hWords
    exact ScanOptions.words_understood ho hArgs n

theorem getex_taken {key : Datum} {options? : Option Options}
    (hTyped : Options.AreOf .getex GetExOptions.IsTyped options?)
    (h : onKeyWith .getex key options? = .ok r) : r.Taken := by
  obtain ⟨a, words, -, hWords, rfl⟩ := onKeyWith_eq_ok h
  refine ⟨CommandType.admits_open rfl ?_, fun now => .onKey _ ?_⟩
  · show 1 ≤ words.length + 1
    omega
  · obtain ⟨o, ho, hArgs⟩ :=
      Options.words_of {} (fun _ hNever => nomatch hNever) rfl (fun _ => rfl) hTyped hWords
    exact GetExOptions.words_understood ho hArgs now

theorem set_taken {key value : Datum} {options? : Option Options}
    (hTyped : Options.AreOf .set SetOptions.IsTyped options?)
    (h : onKeyValueWith .set key value options? = .ok r) : r.Taken := by
  obtain ⟨a, b, words, -, -, hWords, rfl⟩ := onKeyValueWith_eq_ok h
  refine ⟨CommandType.admits_open rfl ?_, fun now => ?_⟩
  · show 2 ≤ words.length + 1 + 1
    omega
  · have hRead : Understood (Strings.SetPlan.read now {} (octetsOf words)) := by
      obtain ⟨o, ho, hArgs⟩ :=
        Options.words_of {} (fun _ hNever => nomatch hNever) rfl (fun _ => rfl) hTyped hWords
      exact SetOptions.words_understood ho hArgs now
    exact .given hRead fun plan _ => .onKey _ (Strings.step_understands plan _)

theorem lpos_taken {key element : Datum} {options? : Option Options}
    (hTyped : Options.AreOf .lpos LPosOptions.IsTyped options?)
    (h : onKeyValueWith .lpos key element options? = .ok r) : r.Taken := by
  obtain ⟨a, b, words, -, -, hWords, rfl⟩ := onKeyValueWith_eq_ok h
  refine ⟨CommandType.admits_open rfl ?_, fun now => ?_⟩
  · show 2 ≤ words.length + 1 + 1
    omega
  · have hRead : Understood (Lists.Search.read {} (octetsOf words)) := by
      obtain ⟨o, ho, hArgs⟩ :=
        Options.words_of {} ⟨.inl rfl, .inl rfl⟩ rfl (fun _ => rfl) hTyped hWords
      exact LPosOptions.words_understood ho hArgs
    exact .given hRead fun q _ => .onKey _ (Lists.lposStep_understands q _)

/-- RESTORE is taken with a lifetime that is a whole number. -/
theorem restore_taken {cluster : Bool} {key lifetime payload : Datum} {options? : Option Options}
    (hWhole : lifetime.IsWhole)
    (hTyped : Options.AreOf .restore RestoreOptions.IsTyped options?)
    (h : request cluster (restore key lifetime payload options?) = .ok r) : r.Taken := by
  obtain ⟨a, args, p, words, -, hLifetime, -, hWords, rfl⟩ := request_restore h
  obtain ⟨s, -, rfl⟩ := ArgList.add_number hWhole.isNumber hLifetime
  refine ⟨CommandType.admits_open rfl ?_, fun now => ?_⟩
  · show 3 ≤ words.length + 1 + 1 + 1
    omega
  · have hRead : Understood (Backup.RestorePlan.read {} (octetsOf words)) := by
      obtain ⟨o, ho, hArgs⟩ :=
        Options.words_of {} (fun _ hNever => nomatch hNever) rfl (fun _ => rfl) hTyped hWords
      exact RestoreOptions.words_understood ho hArgs
    exact restore_understands _ _ _ hRead

/-- Popping takes one word at most behind the key. -/
theorem zpop_taken {key : Datum} {options? : Option Options}
    (hTyped : Options.AreOf .zpop (fun o => o.count.IsWhole) options?)
    (h : onKeyWith t key options? = .ok r) (hOne : t.admits 1 = true) (hTwo : t.admits 2 = true)
    (hStep : ∀ now key words, Store.Understands (Store.step now t (key :: words))) : r.Taken := by
  obtain ⟨a, words, -, hWords, rfl⟩ := onKeyWith_eq_ok h
  refine ⟨?_, fun now => hStep now _ _⟩
  obtain ⟨o, -, hArgs⟩ := Options.words_of {} ⟨0, rfl⟩ rfl (fun _ => rfl) hTyped hWords
  obtain ⟨nothing, -, hAfter⟩ := ok_of_bind hArgs
  cases nothing with
  | true =>
      cases hAfter
      exact hOne
  | false =>
      obtain ⟨s, -, hDone⟩ := ok_of_bind hAfter
      cases hDone
      exact hTwo

/-- ZRANGE is taken with ends that are of the mode of the query. -/
theorem zrange_taken {cluster : Bool} {key : Datum} {q : RangeQuery} (hTyped : q.IsTyped)
    (h : request cluster (zrange key (.range q)) = .ok r) : r.Taken := by
  obtain ⟨a, words, -, hWords, rfl⟩ := request_zrange h
  have hArgs : q.toArgs = .ok words := hWords
  rw [RangeQuery.toArgs_eq] at hArgs
  obtain ⟨⟨first, last⟩, hEnds, hAfter⟩ := ok_of_bind hArgs
  obtain ⟨groups, hGroups, hDone⟩ := ok_of_bind hAfter
  cases hDone
  refine ⟨CommandType.admits_open rfl ?_, fun now => ?_⟩
  · show 3 ≤ groups.flatten.length + 1 + 1 + 1
    omega
  · have hRead := RangeQuery.read_eq hTyped hGroups (.refl _)
    have hPlan : Understood (SortedSets.RangePlan.read {} (octetsOf groups.flatten)) := by
      rw [hRead]
      exact .ok _
    refine .given hPlan fun plan hSome => .onKey _ (SortedSets.zrangeStep_understands ?_)
    have hSame : plan = q.plan := Except.ok.inj (hSome.symm.trans hRead)
    rw [hSame]
    exact q.plan_fits hTyped hEnds

/-- GEOADD is taken with places that are points. -/
theorem geoadd_taken {cluster : Bool} {key : Datum} {places : List (Datum × Options)}
    {options? : Option Options}
    (hPlaces : ∀ p ∈ places, ∃ point, p.2 = .place point ∧ point.IsTyped)
    (hTyped : Options.AreOf .geoadd (fun _ => True) options?)
    (h : request cluster (geoadd key places options?) = .ok r) : r.Taken := by
  obtain ⟨a, flags, words, -, hFlags, hSome, hWords, rfl⟩ := request_geoadd h
  obtain ⟨hLength, ts, hTriples, hCount⟩ := namedPlaces_triples hPlaces hWords
  cases places with
  | nil => exact absurd rfl hSome
  | cons place rest =>
      obtain ⟨b, w, others, hFirst, hBegins⟩ :=
        namedPlaces_begins (hPlaces place List.mem_cons_self) hWords
      refine ⟨CommandType.admits_open rfl ?_, fun now => ?_⟩
      · rw [List.length_cons] at hLength
        show 4 ≤ (flags ++ words).length + 1
        rw [List.length_append]
        omega
      · have hSplit : octetsOf (flags ++ words) = octetsOf flags ++ octetsOf words :=
          List.map_append
        have hRead : ∃ f, Places.Flags.read {} (octetsOf (flags ++ words)) =
            (f, octetsOf words) := by
          rw [hSplit, hFirst]
          obtain ⟨o, -, hArgs⟩ := Options.words_of {} trivial rfl (fun _ => rfl) hTyped hFlags
          have hOwn : o.toArgs = .ok flags := hArgs
          rw [GeoAddOptions.toArgs_eq] at hOwn
          obtain ⟨groups, hGroups, rfl⟩ := ok_of_map hOwn
          exact ⟨o.flags, GeoAddOptions.read_eq hGroups (.refl _) hBegins others⟩
        obtain ⟨f, hRead⟩ := hRead
        have hFilled : ts ≠ [] := by
          rintro rfl
          cases hCount
        exact geoadd_understands _ hRead hTriples hFilled

/-- FUNCTION RESTORE is taken with one of the policies that there are. -/
theorem functionRestore_taken {cluster : Bool} {payload : Datum} {policy? : Option Choice}
    (hTyped : ∀ c ∈ policy?, ∃ p, c = .restorePolicy p)
    (h : request cluster (functionRestore payload policy?) = .ok r) : r.Taken := by
  obtain ⟨a, -, rfl⟩ := request_functionRestore h
  cases policy? with
  | none =>
      exact ⟨rfl, fun now => restoreLibraries_understands _ fun old new =>
        restored_understood .append old new⟩
  | some c =>
      obtain ⟨p, rfl⟩ := hTyped c rfl
      refine ⟨rfl, fun now => restoreLibraries_understands _ fun old new => ?_⟩
      show Understood (Libraries.restored (Keyword.ofOctets? p.keyword.octets) old new)
      rw [Keyword.ofOctets?_octets]
      exact restored_understood p old new

/-- The store takes every request of a typed call. -/
theorem request_taken {cluster : Bool} {c : Call} (hTyped : c.IsTyped)
    (h : c.request cluster = .ok r) : r.Taken := by
  cases c with
  | ping message => exact ping_taken h
  | echo message => exact onKey_taken h rfl fun _ _ => .answer _
  | select index =>
      obtain ⟨args, hIndex, rfl⟩ := request_select h
      obtain ⟨s, -, rfl⟩ := ArgList.add_number hTyped.isNumber hIndex
      exact ⟨rfl, fun now => select_understands _⟩
  | info sections =>
      cases h
      exact ⟨CommandType.admits_open rfl (Nat.zero_le _), fun now => fun _ => .ok _⟩
  | dbsize =>
      cases h
      exact ⟨rfl, fun now => .withSelected fun i _ => .ok _⟩
  | flushdb =>
      cases h
      exact ⟨rfl, fun now => .withSelected fun i _ => .ok _⟩
  | custom words => exact hTyped.elim
  | delete keys =>
      exact onKeys_taken h rfl (by decide) fun _ keys => .countKeys Keys.delete_understands keys
  | «exists» keys =>
      exact onKeys_taken h rfl (by decide) fun _ keys => .countKeys Keys.exists?_understands keys
  | expire key seconds =>
      exact onKeyNumber_taken hTyped h rfl fun now key w =>
        .given (.readInt w) fun n _ => .onKey key (Keys.expireStep_understands now n)
  | ttl key => exact onKey_taken h rfl fun now key => .onKey key (Keys.ttl_understands now)
  | persist key => exact onKey_taken h rfl fun _ key => .onKey key Keys.persist_understands
  | type key => exact onKey_taken h rfl fun _ key => .onKey key Keys.type_understands
  | rename key newKey => exact onKeyAnd_taken h rfl fun _ => rename_understands
  | move key database => exact onKeyNumber_taken hTyped h rfl fun _ => move_understands
  | copy source destination database replace => exact copy_taken hTyped h
  | scan cursor options? => exact scan_taken hTyped h
  | dump key => exact onKey_taken h rfl fun _ key => .onKey key Backup.dump_understands
  | restore key lifetime payload options? => exact restore_taken hTyped.1 hTyped.2 h
  | set key value options? => exact set_taken hTyped h
  | get key => exact onKey_taken h rfl fun _ key => .onKey key Strings.get_understands
  | getex key options? => exact getex_taken hTyped h
  | append key value =>
      exact onKeyAnd_taken h rfl fun _ key w => .onKey key (Strings.append_understands w)
  | incr key => exact onKey_taken h rfl fun _ key => .onKey key (Strings.add_understands 1)
  | incrby key amount =>
      exact onKeyNumber_taken hTyped h rfl fun _ key w => addRead_understands key w 1
  | decr key => exact onKey_taken h rfl fun _ key => .onKey key (Strings.add_understands (-1))
  | decrby key amount =>
      exact onKeyNumber_taken hTyped h rfl fun _ key w => addRead_understands key w (-1)
  | mset ps =>
      obtain ⟨pairs, args, hPairs, hArgs, rfl⟩ := request_mset h
      obtain ⟨hLength, hTwos⟩ := pairArgs_eq_ok hArgs
      have hSome := List.length_pos_iff.2 (pairs_eq_ok hPairs).2
      refine ⟨CommandType.admits_open rfl ?_, fun now => mset_understands hTwos⟩
      show 2 ≤ args.length
      omega
  | mget keys =>
      exact onKeys_taken h rfl (by decide) fun _ keys => .listKeys Strings.peek_understands keys
  | strlen key => exact onKey_taken h rfl fun _ key => .onKey key Strings.strlen_understands
  | hset key ps =>
      obtain ⟨a, pairs, args, -, hPairs, hArgs, rfl⟩ := request_hset h
      obtain ⟨hLength, hTwos⟩ := pairArgs_eq_ok hArgs
      have hSome := List.length_pos_iff.2 (pairs_eq_ok hPairs).2
      refine ⟨CommandType.admits_open rfl ?_, fun now => hset_understands _ hTwos⟩
      show 3 ≤ args.length + 1
      omega
  | hget key field =>
      exact onKeyAnd_taken h rfl fun _ key w => .onKey key (Hashes.hget_understands w)
  | hdel key fields =>
      exact onKeyEach_taken h rfl (by decide) fun _ key ws =>
        .onKey key (Hashes.hdel_understands ws)
  | hgetall key => exact onKey_taken h rfl fun _ key => .onKey key Hashes.hgetall_understands
  | hexists key field =>
      exact onKeyAnd_taken h rfl fun _ key w => .onKey key (Hashes.hexists_understands w)
  | hlen key => exact onKey_taken h rfl fun _ key => .onKey key Hashes.hlen_understands
  | lpush key elements =>
      exact onKeyEach_taken h rfl (by decide) fun _ key ws =>
        .onKey key (Lists.pushStep_understands .left ws)
  | rpush key elements =>
      exact onKeyEach_taken h rfl (by decide) fun _ key ws =>
        .onKey key (Lists.pushStep_understands .right ws)
  | lpop key => exact onKey_taken h rfl fun _ key => .onKey key (Lists.popStep_understands .left)
  | rpop key => exact onKey_taken h rfl fun _ key => .onKey key (Lists.popStep_understands .right)
  | llen key => exact onKey_taken h rfl fun _ key => .onKey key Lists.llen_understands
  | lrange key first last =>
      obtain ⟨a, before, args, -, hFirst, hLast, rfl⟩ := request_lrange h
      obtain ⟨s, -, rfl⟩ := ArgList.add_number hTyped.1.isNumber hFirst
      obtain ⟨t, -, rfl⟩ := ArgList.add_number hTyped.2.isNumber hLast
      exact ⟨rfl, fun now => .onKey _ (Lists.lrange_understands _ _)⟩
  | lpos key element options? => exact lpos_taken hTyped h
  | sadd key members =>
      exact onKeyEach_taken h rfl (by decide) fun _ key ws => .onKey key (Sets.sadd_understands ws)
  | srem key members =>
      exact onKeyEach_taken h rfl (by decide) fun _ key ws => .onKey key (Sets.srem_understands ws)
  | smembers key => exact onKey_taken h rfl fun _ key => .onKey key Sets.smembers_understands
  | sismember key member =>
      exact onKeyAnd_taken h rfl fun _ key w => .onKey key (Sets.sismember_understands w)
  | scard key => exact onKey_taken h rfl fun _ key => .onKey key Sets.scard_understands
  | zadd key scores =>
      obtain ⟨a, pairs, args, -, hPairs, hArgs, rfl⟩ := request_zadd h
      obtain ⟨hMapping, hSome⟩ := pairs_eq_ok hPairs
      obtain ⟨hLength, hTwos⟩ := scoreArgs_eq_ok (hTyped pairs hMapping) hArgs
      have hPositive := List.length_pos_iff.2 hSome
      refine ⟨CommandType.admits_open rfl ?_, fun now => zadd_understands _ hTwos⟩
      show 3 ≤ args.length + 1
      omega
  | zrem key members =>
      exact onKeyEach_taken h rfl (by decide) fun _ key ws =>
        .onKey key (SortedSets.zrem_understands ws)
  | zscore key member =>
      exact onKeyAnd_taken h rfl fun _ key w => .onKey key (SortedSets.zscore_understands w)
  | zcard key => exact onKey_taken h rfl fun _ key => .onKey key SortedSets.zcard_understands
  | zrange key query =>
      obtain ⟨q, rfl, hQuery⟩ := hTyped
      exact zrange_taken hQuery h
  | zpopmin key options? =>
      exact zpop_taken hTyped h rfl rfl fun _ key ws => zpop_understands .least key ws.head?
  | zpopmax key options? =>
      exact zpop_taken hTyped h rfl rfl fun _ key ws => zpop_understands .greatest key ws.head?
  | geoadd key places options? => exact geoadd_taken hTyped.1 hTyped.2 h
  | functionLoad code replace =>
      obtain ⟨a, -, rfl⟩ := request_functionLoad h
      cases replace <;> exact ⟨rfl, fun now => load_understands _ _⟩
  | functionFlush mode? =>
      cases h
      cases mode? <;> exact ⟨rfl, fun now => fun _ => .ok _⟩
  | functionDump =>
      cases h
      exact ⟨rfl, fun now => .withLibraries fun _ _ => .ok _⟩
  | functionRestore payload policy? => exact functionRestore_taken hTyped h
  | fcall function keys arguments =>
      exact functionCall_taken h rfl (by decide) fun _ f _ _ hCount => call_understands f hCount
  | fcallReadonly function keys arguments =>
      exact functionCall_taken h rfl (by decide) fun _ f _ _ hCount => call_understands f hCount

/-- A typed call is never a custom command. -/
theorem commandType_ne_custom {c : Call} (h : c.IsTyped) : c.commandType ≠ .customCommand := by
  cases c with
  | custom words => exact h.elim
  | _ => exact fun hNever => nomatch hNever

end Call

/-- A request that the store takes is carried out as the step of its type. -/
theorem Call.Request.Taken.run {t : CommandType} {args : ArgList}
    (h : Call.Request.Taken (t, args)) (hType : t ≠ .customCommand) (now : Float) :
    Store.Understands (Store.run now ⟨t, args⟩) := by
  intro s
  have hMany : t.admits (octetsOf args).length = true := by
    unfold octetsOf
    rw [List.length_map]
    exact h.many
  have hRequest : Command.request? ⟨t, args⟩ = some (t, octetsOf args) := by
    cases t <;> first | rfl | exact absurd rfl hType
  rw [Store.run_eq, hRequest]
  dsimp only
  unfold Store.runType
  rw [if_pos hMany]
  exact h.understands now s

/-! ## Agreement -/

/-- Groups of option words are read to one thing in whatever order they stand. -/
def InAnyOrder {β : Type} (groups : Except Failure (List ArgList)) (read : List Octets → β)
    (said : β) : Prop :=
  ∀ gs, groups = .ok gs → ∀ words : List ArgList, words.Perm gs →
    read (octetsOf words.flatten) = said

/-- What calls and commands have to do with each other. -/
structure Agreement : Prop where
  /-- No typed call fails for its list of arguments. -/
  formed (b : Batch) (c : Call) : c.IsTyped → ∀ flaw, b.call c ≠ .error (.arguments flaw)
  /-- A typed call that comes through adds one command, and no store refuses it at any time because
  its words make no sense. -/
  understood (b after : Batch) (c : Call) : c.IsTyped → b.call c = .ok after →
    ∃ args, after.commands = b.commands ++ [⟨c.commandType, args⟩] ∧
      ∀ now s r, (Store.run now ⟨c.commandType, args⟩ s).1 = .error (.refused r) →
        r.isMalformed = false
  /-- SET. -/
  set (o : SetOptions) (now : Float) : o.IsTyped → o.toArgs = o.groups.map List.flatten ∧
    InAnyOrder o.groups (Strings.SetPlan.read now {}) (o.plan now)
  /-- GETEX, which takes one option at most. -/
  getex (o : GetExOptions) (now : Float) (words : ArgList) : o.IsTyped → o.toArgs = .ok words →
    Strings.getex now (octetsOf words) = o.step now
  /-- SCAN. -/
  scan (o : ScanOptions) (cursor : Int) : o.IsTyped → o.toArgs = o.groups.map List.flatten ∧
    InAnyOrder o.groups (Scan.Plan.read { cursor }) (.ok (o.plan cursor))
  /-- LPOS. -/
  lpos (o : LPosOptions) : o.IsTyped → o.toArgs = o.groups.map List.flatten ∧
    InAnyOrder o.groups (Lists.Search.read {}) o.plan
  /-- RESTORE. -/
  restore (o : RestoreOptions) : o.IsTyped → o.toArgs = o.groups.map List.flatten ∧
    InAnyOrder o.groups (Backup.RestorePlan.read {}) (.ok o.plan)
  /-- COPY: the options stand behind the two keys. -/
  copy (o : CopyOptions) (s : Store) (source destination : Datum) (a b : Arg) : o.IsTyped →
    Arg.check source = .ok a → Arg.check destination = .ok b →
    Call.request false (.copy source destination o.database o.replace) =
        o.groups.map (fun gs => (.copy, a :: b :: gs.flatten)) ∧
      InAnyOrder o.groups (Keys.CopyPlan.read s { target := s.selected }) (o.plan s)
  /-- ZRANGE: the options stand behind the two ends. -/
  range (q : RangeQuery) : q.IsTyped →
    q.toArgs = (do
      let (first, last) ← q.ends
      let groups ← q.groups
      return first :: last :: groups.flatten) ∧
    InAnyOrder q.groups (SortedSets.RangePlan.read {}) (.ok q.plan)
  /-- Ends by place are read back. -/
  indexEnds (m n : Int) (reverse : Bool) (a b : Arg) :
    (RangeQuery.byIndex (.int m) (.int n) reverse).ends = .ok (a, b) →
    readInt a.toOctets = .ok m ∧ readInt b.toOctets = .ok n
  /-- An end at a score is read back, up to the sign of zero. -/
  scoreEnd (exclusive : Bool) (x : Float) (e : Bound) : x.isNaN = false →
    Bound.ofScore exclusive (.real x) = .ok e →
    ∃ y, SortedSets.ScoreEnd.read e.word.toOctets = .ok ⟨y, exclusive⟩ ∧ (y == x) = true
  /-- The end of all scores is an infinity. -/
  allScores (u : Unbounded) :
    SortedSets.ScoreEnd.read (Bound.ofAllScores u).word.toOctets = .ok ⟨u.infinity, false⟩
  /-- An end at a member is read back. -/
  memberEnd (exclusive : Bool) (v : Datum) (e : Bound) : Bound.ofMember exclusive v = .ok e →
    SortedSets.LexEnd.read e.word.toOctets = .ok (.at v.word exclusive)
  /-- The end of all members is none. -/
  allMembers (u : Unbounded) :
    SortedSets.LexEnd.read (Bound.ofAllMembers u).word.toOctets = .ok (.unbounded u)
  /-- GEOADD: the flags end where the places begin. -/
  geoadd (o : GeoAddOptions) (places : List (Datum × Options)) (after : ArgList) :
    places ≠ [] → (∀ p ∈ places, ∃ point, p.2 = .place point ∧ point.IsTyped) →
    namedPlaces places = .ok after → o.toArgs = o.groups.map List.flatten ∧
      InAnyOrder o.groups (fun words => Places.Flags.read {} (words ++ octetsOf after))
        (o.flags, octetsOf after)

/-- Typed calls and the store agree. -/
theorem typed_calls_agree : Agreement where
  formed b c hTyped flaw := by
    have hRequest := Call.request_formed b.cluster c
    unfold Batch.call
    cases hCall : c.request b.cluster with
    | error e =>
        intro hFailed
        rw [hCall] at hRequest
        have hSame : (.error e : Except Failure Batch) = .error (.arguments flaw) := hFailed
        exact hRequest.notMalformed flaw (congrArg Except.error (Except.error.inj hSame))
    | ok r =>
        obtain ⟨t, args⟩ := r
        have hMany := (Call.request_taken hTyped hCall).many
        have hLeast : ¬ args.length < t.minArity := by
          unfold CommandType.admits at hMany
          rw [Bool.and_eq_true, decide_eq_true_iff] at hMany
          have hEnough := hMany.1
          dsimp only at hEnough
          omega
        show b.append t args ≠ _
        unfold Batch.append Command.build
        rw [if_neg hLeast]
        split
        · exact fun hNever => nomatch hNever
        · split
          · exact fun hNever => nomatch hNever
          · exact fun hNever => nomatch hNever
  understood b after c hTyped hCall := by
    obtain ⟨args, hRequest, hAppend⟩ := Batch.call_eq_ok hCall
    obtain ⟨-, -, rfl⟩ := Batch.append_eq_ok hAppend
    refine ⟨args, rfl, fun now s r hRefused => ?_⟩
    have hTaken := Call.request_taken hTyped hRequest
    have hUnderstood := hTaken.run (Call.commandType_ne_custom hTyped) now s
    exact hUnderstood.notMalformed r hRefused
  set o now hTyped := ⟨o.toArgs_eq, fun _ hGroups _ hPerm => o.read_eq now hTyped hGroups hPerm⟩
  getex o now words hTyped hArgs := GetExOptions.step_eq now hTyped hArgs
  scan o cursor hTyped :=
    ⟨o.toArgs_eq, fun _ hGroups _ hPerm => ScanOptions.read_eq hTyped hGroups hPerm cursor⟩
  lpos o hTyped := ⟨o.toArgs_eq, fun _ hGroups _ hPerm => LPosOptions.read_eq hTyped hGroups hPerm⟩
  restore o hTyped :=
    ⟨o.toArgs_eq, fun _ hGroups _ hPerm => RestoreOptions.read_eq hTyped hGroups hPerm⟩
  copy o s source destination a b hTyped hSource hDestination :=
    ⟨Call.copy_eq hSource hDestination hTyped,
      fun _ hGroups _ hPerm => CopyOptions.read_eq s hTyped hGroups hPerm⟩
  range q hTyped := ⟨q.toArgs_eq, fun _ hGroups _ hPerm => RangeQuery.read_eq hTyped hGroups hPerm⟩
  indexEnds m n reverse a b hEnds := RangeQuery.readInt_ends hEnds
  scoreEnd exclusive x e hNumber hEnd := Bound.read_ofScore hNumber hEnd
  allScores := Bound.read_ofAllScores
  memberEnd exclusive v e hEnd := Bound.read_ofMember hEnd
  allMembers := Bound.read_ofAllMembers
  geoadd o places after hSome hTyped hWords := by
    refine ⟨o.toArgs_eq, fun groups hGroups words hPerm => ?_⟩
    cases places with
    | nil => exact absurd rfl hSome
    | cons place rest =>
        obtain ⟨b, w, others, hFirst, hBegins⟩ :=
          namedPlaces_begins (hTyped place List.mem_cons_self) hWords
        dsimp only
        rw [hFirst]
        exact GeoAddOptions.read_eq hGroups hPerm hBegins others

/-- A value that reads like an option, options in another order, and a call with them. -/
theorem typed_calls_agree_set :
    (⟨false, false, [], .building⟩ : Batch).call (.set (.text "NX") (.text "GET") (some
        (.set { condition? := some .onlyIfEquals, comparison := .text "XX", returnOld := true })))
          ≠ .error (.arguments (.tooFew .set 1)) ∧
      Strings.SetPlan.read 0.0 {}
          [Keyword.get.octets, Keyword.ifeq.octets, Octets.ofText "XX"] =
        .ok { guard := .ifEquals (Octets.ofText "XX"), returnOld := true } := by
  have hTyped : SetOptions.IsTyped
      { condition? := some .onlyIfEquals, comparison := .text "XX", returnOld := true } :=
    fun _ hNever => nomatch hNever
  refine ⟨typed_calls_agree.formed _ _ ?_ _, ?_⟩
  · intro o hSome
    cases hSome
    exact ⟨_, rfl, hTyped⟩
  · exact (typed_calls_agree.set _ 0.0 hTyped).2
      [[Keyword.ifeq.arg, .text "XX"], [Keyword.get.arg], []] rfl
      [[Keyword.get.arg], [Keyword.ifeq.arg, .text "XX"], []] (.swap _ _ _)

end BatchStore
