import BatchStore.Batch.Call

/-!
# The requests of calls

What a call asks for has a type that its values do not change: `Call.commandType`. The values only
decide whether there is a request at all, and what its arguments are.

A request is worked out value by value, and the first that does not fit is the failure. So an
equation that says that a request came about tells of each value in turn that it fitted:
`ok_of_bind` takes the first one off.
-/

namespace BatchStore

namespace Call

/-- The type of the command that a call adds. -/
def commandType : Call → CommandType
  | ping _ => .ping
  | echo _ => .echo
  | select _ => .select
  | info _ => .info
  | dbsize => .dbsize
  | flushdb => .flushdb
  | custom _ => .customCommand
  | delete _ => .del
  | .exists _ => .exists
  | expire _ _ => .expire
  | ttl _ => .ttl
  | persist _ => .persist
  | .type _ => .type
  | rename _ _ => .rename
  | move _ _ => .move
  | copy _ _ _ _ => .copy
  | scan _ _ => .scan
  | dump _ => .dump
  | restore _ _ _ _ => .restore
  | set _ _ _ => .set
  | get _ => .get
  | getex _ _ => .getex
  | append _ _ => .append
  | incr _ => .incr
  | incrby _ _ => .incrby
  | decr _ => .decr
  | decrby _ _ => .decrby
  | mset _ => .mset
  | mget _ => .mget
  | strlen _ => .strlen
  | hset _ _ => .hset
  | hget _ _ => .hget
  | hdel _ _ => .hdel
  | hgetall _ => .hgetall
  | hexists _ _ => .hexists
  | hlen _ => .hlen
  | lpush _ _ => .lpush
  | rpush _ _ => .rpush
  | lpop _ => .lpop
  | rpop _ => .rpop
  | llen _ => .llen
  | lrange _ _ _ => .lrange
  | lpos _ _ _ => .lpos
  | sadd _ _ => .sadd
  | srem _ _ => .srem
  | smembers _ => .smembers
  | sismember _ _ => .sismember
  | scard _ => .scard
  | zadd _ _ => .zadd
  | zrem _ _ => .zrem
  | zscore _ _ => .zscore
  | zcard _ => .zcard
  | zrange _ _ => .zrange
  | zpopmin _ _ => .zpopmin
  | zpopmax _ _ => .zpopmax
  | geoadd _ _ _ => .geoadd
  | functionLoad _ _ => .functionLoad
  | functionFlush _ => .functionFlush
  | functionDump => .functionDump
  | functionRestore _ _ => .functionRestore
  | fcall _ _ _ => .fcall
  | fcallReadonly _ _ _ => .fcallReadonly

/-! ## One form at a time -/

section Forms

variable {t : CommandType} {r : Request}

/-- A key alone. -/
theorem onKey_eq_ok {key : Datum} (h : onKey t key = .ok r) :
    ∃ a, Arg.check key = .ok a ∧ r = (t, [a]) := by
  obtain ⟨a, hKey, hRest⟩ := ok_of_bind h
  cases hRest
  exact ⟨a, hKey, rfl⟩

/-- A key and another argument. -/
theorem onKeyAnd_eq_ok {key other : Datum} (h : onKeyAnd t key other = .ok r) :
    ∃ a b, Arg.check key = .ok a ∧ Arg.check other = .ok b ∧ r = (t, [a, b]) := by
  obtain ⟨a, hKey, hAfter⟩ := ok_of_bind h
  obtain ⟨b, hOther, hRest⟩ := ok_of_bind hAfter
  cases hRest
  exact ⟨a, b, hKey, hOther, rfl⟩

/-- A key and a number, which may add more than one word. -/
theorem onKeyNumber_eq_ok {key number : Datum} (h : onKeyNumber t key number = .ok r) :
    ∃ a args, Arg.check key = .ok a ∧ (ArgList.add [a] number).toExcept = .ok args ∧
      r = (t, args) := by
  obtain ⟨a, hKey, hAfter⟩ := ok_of_bind h
  obtain ⟨args, hNumber, hRest⟩ := ok_of_bind hAfter
  cases hRest
  exact ⟨a, args, hKey, hNumber, rfl⟩

/-- Keys in a row that is not empty. -/
theorem onKeys_eq_ok {keys : Datum} (h : onKeys t keys = .ok r) :
    ∃ v args, nonempty keys "keys" = .ok v ∧ Arg.checkAll v = .ok args ∧ r = (t, args) := by
  obtain ⟨v, hSome, hAfter⟩ := ok_of_bind h
  obtain ⟨args, hEach, hRest⟩ := ok_of_bind hAfter
  cases hRest
  exact ⟨v, args, hSome, hEach, rfl⟩

/-- A key and a row of others that is not empty. -/
theorem onKeyEach_eq_ok {key others : Datum} {what : String}
    (h : onKeyEach t key others what = .ok r) :
    ∃ a v args, Arg.check key = .ok a ∧ nonempty others what = .ok v ∧
      Arg.checkAll v = .ok args ∧ r = (t, a :: args) := by
  obtain ⟨a, hKey, hAfter⟩ := ok_of_bind h
  obtain ⟨v, hSome, hAfter⟩ := ok_of_bind hAfter
  obtain ⟨args, hEach, hRest⟩ := ok_of_bind hAfter
  cases hRest
  exact ⟨a, v, args, hKey, hSome, hEach, rfl⟩

/-- A key and the words of options, if there are any. -/
theorem onKeyWith_eq_ok {key : Datum} {options? : Option Options}
    (h : onKeyWith t key options? = .ok r) :
    ∃ a words, Arg.check key = .ok a ∧ Options.wordsOf options? = .ok words ∧
      r = (t, a :: words) := by
  obtain ⟨a, hKey, hAfter⟩ := ok_of_bind h
  obtain ⟨words, hOptions, hRest⟩ := ok_of_bind hAfter
  cases hRest
  exact ⟨a, words, hKey, hOptions, rfl⟩

/-- A key, a value and the words of options. -/
theorem onKeyValueWith_eq_ok {key value : Datum} {options? : Option Options}
    (h : onKeyValueWith t key value options? = .ok r) :
    ∃ a b words, Arg.check key = .ok a ∧ Arg.check value = .ok b ∧
      Options.wordsOf options? = .ok words ∧ r = (t, a :: b :: words) := by
  obtain ⟨a, hKey, hAfter⟩ := ok_of_bind h
  obtain ⟨b, hValue, hAfter⟩ := ok_of_bind hAfter
  obtain ⟨words, hOptions, hRest⟩ := ok_of_bind hAfter
  cases hRest
  exact ⟨a, b, words, hKey, hValue, hOptions, rfl⟩

/-- A function, the number of its keys, the keys, and the arguments behind them. -/
theorem functionCall_eq_ok {function keys arguments : Datum}
    (h : functionCall t function keys arguments = .ok r) :
    ∃ ks f as, Arg.checkAll keys = .ok ks ∧ Arg.check function = .ok f ∧
      Arg.checkAll arguments = .ok as ∧
      r = (t, f :: .text (toString ks.length) :: ks ++ as) := by
  obtain ⟨ks, hKeys, hAfter⟩ := ok_of_bind h
  obtain ⟨f, hFunction, hAfter⟩ := ok_of_bind hAfter
  obtain ⟨as, hArguments, hRest⟩ := ok_of_bind hAfter
  cases hRest
  exact ⟨ks, f, as, hKeys, hFunction, hArguments, rfl⟩

end Forms

/-! ## The calls with a form of their own -/

section Calls

variable {cluster : Bool} {r : Request}

theorem request_select {index : Datum} (h : request cluster (select index) = .ok r) :
    ∃ args, (ArgList.add [] index).toExcept = .ok args ∧ r = (.select, args) := by
  obtain ⟨args, hIndex, hRest⟩ := ok_of_bind h
  cases hRest
  exact ⟨args, hIndex, rfl⟩

/-- The words of a custom command. A cluster checks them. -/
theorem request_custom {words : Datum} (h : request cluster (custom words) = .ok r) :
    ∃ v args, nonempty words "custom command arguments" = .ok v ∧ Arg.checkAll v = .ok args ∧
      (cluster = true → checkCluster args = .ok ()) ∧ r = (.customCommand, args) := by
  obtain ⟨v, hSome, hAfter⟩ := ok_of_bind h
  obtain ⟨args, hWords, hAfter⟩ := ok_of_bind hAfter
  refine ⟨v, args, hSome, hWords, ?_⟩
  cases cluster with
  | false =>
      cases hAfter
      exact ⟨(fun hNever => nomatch hNever), rfl⟩
  | true =>
      have hChecked : (checkCluster args >>= fun _ => pure (.customCommand, args)) = .ok r := hAfter
      obtain ⟨_, hCluster, hRest⟩ := ok_of_bind hChecked
      cases hRest
      exact ⟨fun _ => hCluster, rfl⟩

/-- Two keys, and the database if there is one, which a cluster does not take. -/
theorem request_copy {source destination database : Datum} {replace : Bool}
    (h : request cluster (copy source destination database replace) = .ok r) :
    ∃ a b words, Arg.check source = .ok a ∧ Arg.check destination = .ok b ∧
      (database = .null ∧ words = [] ∨
        database ≠ .null ∧ cluster = false ∧
          (ArgList.add [Keyword.db.arg] database).toExcept = .ok words) ∧
      r = (.copy, [a, b] ++ words ++ if replace then [Keyword.replace.arg] else []) := by
  obtain ⟨a, hSource, hAfter⟩ := ok_of_bind h
  obtain ⟨b, hDestination, hAfter⟩ := ok_of_bind hAfter
  refine ⟨a, b, ?_⟩
  by_cases hNull : database = .null
  · subst hNull
    cases hAfter
    exact ⟨[], hSource, hDestination, .inl ⟨rfl, rfl⟩, rfl⟩
  · have hNamed : (if cluster then .error (.cluster .copyToDatabase) else do
        let words ← (ArgList.add [Keyword.db.arg] database).toExcept
        return (.copy, [a, b] ++ words ++ if replace then [Keyword.replace.arg] else [])) =
          Except.ok r := by
      cases database <;> first | exact absurd rfl hNull | (cases cluster <;> exact hAfter)
    cases cluster with
    | false =>
        obtain ⟨words, hWords, hRest⟩ := ok_of_bind hNamed
        cases hRest
        exact ⟨words, hSource, hDestination, .inr ⟨hNull, rfl, hWords⟩, rfl⟩
    | true => cases hNamed

/-- A key, the lifetime, the payload and the words of options. -/
theorem request_restore {key lifetime payload : Datum} {options? : Option Options}
    (h : request cluster (restore key lifetime payload options?) = .ok r) :
    ∃ a args p words, Arg.check key = .ok a ∧ (ArgList.add [a] lifetime).toExcept = .ok args ∧
      Arg.check payload = .ok p ∧ Options.wordsOf options? = .ok words ∧
      r = (.restore, args ++ p :: words) := by
  obtain ⟨a, hKey, hAfter⟩ := ok_of_bind h
  obtain ⟨args, hLifetime, hAfter⟩ := ok_of_bind hAfter
  obtain ⟨p, hPayload, hAfter⟩ := ok_of_bind hAfter
  obtain ⟨words, hOptions, hRest⟩ := ok_of_bind hAfter
  cases hRest
  exact ⟨a, args, p, words, hKey, hLifetime, hPayload, hOptions, rfl⟩

/-- Keys and values in turn. -/
theorem request_mset {ps : Datum} (h : request cluster (mset ps) = .ok r) :
    ∃ pairs args, Call.pairs ps "key values" = .ok pairs ∧ pairArgs pairs = .ok args ∧
      r = (.mset, args) := by
  obtain ⟨pairs, hPairs, hAfter⟩ := ok_of_bind h
  obtain ⟨args, hArgs, hRest⟩ := ok_of_bind hAfter
  cases hRest
  exact ⟨pairs, args, hPairs, hArgs, rfl⟩

/-- A key, and fields and values in turn. -/
theorem request_hset {key ps : Datum} (h : request cluster (hset key ps) = .ok r) :
    ∃ a pairs args, Arg.check key = .ok a ∧ Call.pairs ps "field values" = .ok pairs ∧
      pairArgs pairs = .ok args ∧ r = (.hset, a :: args) := by
  obtain ⟨a, hKey, hAfter⟩ := ok_of_bind h
  obtain ⟨pairs, hPairs, hAfter⟩ := ok_of_bind hAfter
  obtain ⟨args, hArgs, hRest⟩ := ok_of_bind hAfter
  cases hRest
  exact ⟨a, pairs, args, hKey, hPairs, hArgs, rfl⟩

theorem request_lrange {key first last : Datum}
    (h : request cluster (lrange key first last) = .ok r) :
    ∃ a before args, Arg.check key = .ok a ∧ (ArgList.add [a] first).toExcept = .ok before ∧
      (ArgList.add before last).toExcept = .ok args ∧ r = (.lrange, args) := by
  obtain ⟨a, hKey, hAfter⟩ := ok_of_bind h
  obtain ⟨before, hFirst, hAfter⟩ := ok_of_bind hAfter
  obtain ⟨args, hLast, hRest⟩ := ok_of_bind hAfter
  cases hRest
  exact ⟨a, before, args, hKey, hFirst, hLast, rfl⟩

/-- A key, and scores and members in turn. -/
theorem request_zadd {key scores : Datum} (h : request cluster (zadd key scores) = .ok r) :
    ∃ a pairs args, Arg.check key = .ok a ∧ Call.pairs scores "member scores" = .ok pairs ∧
      scoreArgs pairs = .ok args ∧ r = (.zadd, a :: args) := by
  obtain ⟨a, hKey, hAfter⟩ := ok_of_bind h
  obtain ⟨pairs, hPairs, hAfter⟩ := ok_of_bind hAfter
  obtain ⟨args, hArgs, hRest⟩ := ok_of_bind hAfter
  cases hRest
  exact ⟨a, pairs, args, hKey, hPairs, hArgs, rfl⟩

theorem request_zrange {key : Datum} {query : Options}
    (h : request cluster (zrange key query) = .ok r) :
    ∃ a words, Arg.check key = .ok a ∧ query.toArgs = .ok words ∧ r = (.zrange, a :: words) := by
  obtain ⟨a, hKey, hAfter⟩ := ok_of_bind h
  obtain ⟨words, hQuery, hRest⟩ := ok_of_bind hAfter
  cases hRest
  exact ⟨a, words, hKey, hQuery, rfl⟩

/-- A key, the flags, and places that are not missing. -/
theorem request_geoadd {key : Datum} {places : List (Datum × Options)}
    {options? : Option Options} (h : request cluster (geoadd key places options?) = .ok r) :
    ∃ a flags words, Arg.check key = .ok a ∧ Options.wordsOf options? = .ok flags ∧
      places ≠ [] ∧ namedPlaces places = .ok words ∧ r = (.geoadd, a :: flags ++ words) := by
  obtain ⟨a, hKey, hAfter⟩ := ok_of_bind h
  obtain ⟨flags, hFlags, hAfter⟩ := ok_of_bind hAfter
  cases places with
  | nil => cases hAfter
  | cons place rest =>
      obtain ⟨words, hPlaces, hRest⟩ := ok_of_bind hAfter
      cases hRest
      exact ⟨a, flags, words, hKey, hFlags, List.cons_ne_nil _ _, hPlaces, rfl⟩

/-- The code, behind the word that lets it replace what is there. -/
theorem request_functionLoad {code : Datum} {replace : Bool}
    (h : request cluster (functionLoad code replace) = .ok r) :
    ∃ a, Arg.check code = .ok a ∧
      r = (.functionLoad, (if replace then [Keyword.replace.arg] else []) ++ [a]) := by
  obtain ⟨a, hCode, hRest⟩ := ok_of_bind h
  cases hRest
  exact ⟨a, hCode, rfl⟩

theorem request_functionRestore {payload : Datum} {policy? : Option Choice}
    (h : request cluster (functionRestore payload policy?) = .ok r) :
    ∃ a, Arg.check payload = .ok a ∧
      r = (.functionRestore, a :: policy?.toList.map Choice.arg) := by
  obtain ⟨a, hPayload, hRest⟩ := ok_of_bind h
  cases hRest
  exact ⟨a, hPayload, rfl⟩

end Calls

/-- The request of a call has the type of the call. -/
theorem request_type {cluster : Bool} {c : Call} {r : Request} (h : c.request cluster = .ok r) :
    r.1 = c.commandType := by
  cases c with
  | ping message =>
      cases message <;> first
        | (obtain ⟨a, -, rfl⟩ := onKey_eq_ok h; rfl)
        | (cases h; rfl)
  | info sections => cases h; rfl
  | dbsize => cases h; rfl
  | flushdb => cases h; rfl
  | functionFlush mode? => cases h; rfl
  | functionDump => cases h; rfl
  | echo key | ttl key | persist key | type key | dump key | get key | incr key | decr key
  | strlen key | hgetall key | hlen key | lpop key | rpop key | llen key | smembers key
  | scard key | zcard key =>
      obtain ⟨a, -, rfl⟩ := onKey_eq_ok h
      rfl
  | rename key other | append key other | hget key other | hexists key other
  | sismember key other | zscore key other =>
      obtain ⟨a, b, -, -, rfl⟩ := onKeyAnd_eq_ok h
      rfl
  | expire key number | move key number | incrby key number | decrby key number =>
      obtain ⟨a, args, -, -, rfl⟩ := onKeyNumber_eq_ok h
      rfl
  | delete keys | «exists» keys | mget keys =>
      obtain ⟨v, args, -, -, rfl⟩ := onKeys_eq_ok h
      rfl
  | hdel key others | lpush key others | rpush key others | sadd key others
  | srem key others | zrem key others =>
      obtain ⟨a, v, args, -, -, -, rfl⟩ := onKeyEach_eq_ok h
      rfl
  | scan key options? | getex key options? | zpopmin key options? | zpopmax key options? =>
      obtain ⟨a, words, -, -, rfl⟩ := onKeyWith_eq_ok h
      rfl
  | set key value options? | lpos key value options? =>
      obtain ⟨a, b, words, -, -, -, rfl⟩ := onKeyValueWith_eq_ok h
      rfl
  | fcall function keys arguments | fcallReadonly function keys arguments =>
      obtain ⟨ks, f, as, -, -, -, rfl⟩ := functionCall_eq_ok h
      rfl
  | select index =>
      obtain ⟨args, -, rfl⟩ := request_select h
      rfl
  | custom words =>
      obtain ⟨v, args, -, -, -, rfl⟩ := request_custom h
      rfl
  | copy source destination database replace =>
      obtain ⟨a, b, words, -, -, -, rfl⟩ := request_copy h
      rfl
  | restore key lifetime payload options? =>
      obtain ⟨a, args, p, words, -, -, -, -, rfl⟩ := request_restore h
      rfl
  | mset ps =>
      obtain ⟨pairs, args, -, -, rfl⟩ := request_mset h
      rfl
  | hset key ps =>
      obtain ⟨a, pairs, args, -, -, -, rfl⟩ := request_hset h
      rfl
  | lrange key first last =>
      obtain ⟨a, before, args, -, -, -, rfl⟩ := request_lrange h
      rfl
  | zadd key scores =>
      obtain ⟨a, pairs, args, -, -, -, rfl⟩ := request_zadd h
      rfl
  | zrange key query =>
      obtain ⟨a, words, -, -, rfl⟩ := request_zrange h
      rfl
  | geoadd key places options? =>
      obtain ⟨a, flags, words, -, -, -, -, rfl⟩ := request_geoadd h
      rfl
  | functionLoad code replace =>
      obtain ⟨a, -, rfl⟩ := request_functionLoad h
      rfl
  | functionRestore payload policy? =>
      obtain ⟨a, -, rfl⟩ := request_functionRestore h
      rfl

end Call

/-- A call that comes through adds the command of its request. -/
theorem Batch.call_eq_ok {b after : Batch} {c : Call} (h : b.call c = .ok after) :
    ∃ args, c.request b.cluster = .ok (c.commandType, args) ∧
      b.append c.commandType args = .ok after := by
  obtain ⟨⟨t, args⟩, hRequest, hAppend⟩ := ok_of_bind h
  have hType : t = c.commandType := Call.request_type hRequest
  subst hType
  exact ⟨args, hRequest, hAppend⟩

end BatchStore
