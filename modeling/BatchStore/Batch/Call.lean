import BatchStore.Batch
import BatchStore.Options
import BatchStore.Options.Choice

/-!
# Calls on a batch

One constructor for each operation that a batch offers, with the values that the
caller gave. `Call.request` checks the values from left to right and writes them as
the arguments of a command; `Batch.call` adds that command.
-/

namespace BatchStore

/-- An operation on a batch. A missing optional value is null. -/
inductive Call where
  | ping (message : Datum)
  | echo (message : Datum)
  | select (index : Datum)
  | info (sections : List Choice)
  | dbsize
  | flushdb
  | custom (words : Datum)
  | delete (keys : Datum)
  | exists (keys : Datum)
  | expire (key seconds : Datum)
  | ttl (key : Datum)
  | persist (key : Datum)
  | type (key : Datum)
  | rename (key newKey : Datum)
  | move (key database : Datum)
  | copy (source destination database : Datum) (replace : Bool)
  | scan (cursor : Datum) (options? : Option Options)
  | dump (key : Datum)
  | restore (key lifetime payload : Datum) (options? : Option Options)
  | set (key value : Datum) (options? : Option Options)
  | get (key : Datum)
  | getex (key : Datum) (options? : Option Options)
  | append (key value : Datum)
  | incr (key : Datum)
  | incrby (key amount : Datum)
  | decr (key : Datum)
  | decrby (key amount : Datum)
  | mset (pairs : Datum)
  | mget (keys : Datum)
  | strlen (key : Datum)
  | hset (key pairs : Datum)
  | hget (key field : Datum)
  | hdel (key fields : Datum)
  | hgetall (key : Datum)
  | hexists (key field : Datum)
  | hlen (key : Datum)
  | lpush (key elements : Datum)
  | rpush (key elements : Datum)
  | lpop (key : Datum)
  | rpop (key : Datum)
  | llen (key : Datum)
  | lrange (key first last : Datum)
  | lpos (key element : Datum) (options? : Option Options)
  | sadd (key members : Datum)
  | srem (key members : Datum)
  | smembers (key : Datum)
  | sismember (key member : Datum)
  | scard (key : Datum)
  | zadd (key scores : Datum)
  | zrem (key members : Datum)
  | zscore (key member : Datum)
  | zcard (key : Datum)
  | zrange (key : Datum) (query : Options)
  | zpopmin (key : Datum) (options? : Option Options)
  | zpopmax (key : Datum) (options? : Option Options)
  | geoadd (key : Datum) (places : List (Datum × Options)) (options? : Option Options)
  | functionLoad (code : Datum) (replace : Bool)
  | functionFlush (mode? : Option Choice)
  | functionDump
  | functionRestore (payload : Datum) (policy? : Option Choice)
  | fcall (function keys arguments : Datum)
  | fcallReadonly (function keys arguments : Datum)

namespace Call

/-- A type of request with the arguments for it. -/
abbrev Request := CommandType × ArgList

/-- A collection that has something in it. -/
def nonempty (v : Datum) (what : String) : Except Failure Datum :=
  if v.isNothing then .error (.option (.nothingGiven what)) else .ok v

/-- The pairs of a mapping. -/
def pairs (v : Datum) (what : String) : Except Failure (List (Datum × Datum)) := do
  match ← nonempty v what with
  | .mapping ps => return ps
  | v => throw (.fault (.notAMapping v.typeName))

/-- A key and nothing else. -/
def onKey (t : CommandType) (key : Datum) : Except Failure Request := do
  return (t, [← Arg.check key])

/-- A key and one more argument. -/
def onKeyAnd (t : CommandType) (key other : Datum) : Except Failure Request := do
  let key ← Arg.check key
  return (t, [key, ← Arg.check other])

/-- A key and a number. -/
def onKeyNumber (t : CommandType) (key number : Datum) : Except Failure Request := do
  let key ← Arg.check key
  return (t, ← (ArgList.add [key] number).toExcept)

/-- A key and a collection that is not empty. -/
def onKeyEach (t : CommandType) (key others : Datum) (what : String) :
    Except Failure Request := do
  let key ← Arg.check key
  return (t, key :: (← Arg.checkAll (← nonempty others what)))

/-- A collection of keys that is not empty. -/
def onKeys (t : CommandType) (keys : Datum) : Except Failure Request := do
  return (t, ← Arg.checkAll (← nonempty keys "keys"))

/-- A key and options. -/
def onKeyWith (t : CommandType) (key : Datum) (options? : Option Options) :
    Except Failure Request := do
  let key ← Arg.check key
  return (t, key :: (← Options.wordsOf options?))

/-- A key, a value and options. -/
def onKeyValueWith (t : CommandType) (key value : Datum) (options? : Option Options) :
    Except Failure Request := do
  let key ← Arg.check key
  let value ← Arg.check value
  return (t, key :: value :: (← Options.wordsOf options?))

/-- The keys and values of a mapping, in turn. -/
def pairArgs : List (Datum × Datum) → Except Failure ArgList
  | [] => .ok []
  | (key, value) :: rest => do
    let key ← Arg.check key
    let value ← Arg.check value
    return key :: value :: (← pairArgs rest)

/-- The scores and members of a mapping from members to scores, in turn. -/
def scoreArgs : List (Datum × Datum) → Except Failure ArgList
  | [] => .ok []
  | (member, score) :: rest => do
    let score ← (ArgList.add [] score).toExcept
    let member ← Arg.check member
    return score ++ member :: (← scoreArgs rest)

/-- A function, the count of its keys, the keys and the other arguments. -/
def functionCall (t : CommandType) (function keys arguments : Datum) :
    Except Failure Request := do
  let keys ← Arg.checkAll keys
  let function ← Arg.check function
  let arguments ← Arg.checkAll arguments
  return (t, function :: .text (toString keys.length) :: keys ++ arguments)

/-- A custom command for a cluster: neither its type nor a destination database may be
out of bounds. Source and destination of a copy come first, options after. -/
def checkCluster (words : ArgList) : Except Failure Unit :=
  match CommandType.resolve? words with
  | none => .ok ()
  | some (t, n) =>
    if !t.allowedInCluster then .error (.cluster (.type t))
    else if t == .copy && (words.drop (n + 2)).any namesDatabase then
      .error (.cluster .copyToDatabase)
    else .ok ()
where
  /-- Whether an argument is the keyword that names a database. -/
  namesDatabase : Arg → Bool
    | .text s => Text.capitals s == Keyword.db.word
    | .octets w => w.upper == Keyword.db.octets

/-- The words of a transfer to a named database. -/
def copyRequest (cluster : Bool) (source destination database : Datum) (replace : Bool) :
    Except Failure Request := do
  let source ← Arg.check source
  let destination ← Arg.check destination
  let database ←
    match database with
    | .null => .ok []
    | v =>
      if cluster then .error (.cluster .copyToDatabase)
      else (ArgList.add [Keyword.db.arg] v).toExcept
  return (.copy,
    [source, destination] ++ database ++ if replace then [Keyword.replace.arg] else [])

/-- The request of a call: the first value that does not fit is the failure. -/
def request (cluster : Bool) : Call → Except Failure Request
  | ping .null => .ok (.ping, [])
  | ping message => onKey .ping message
  | echo message => onKey .echo message
  | select index => do return (.select, ← (ArgList.add [] index).toExcept)
  | info sections => .ok (.info, sections.map Choice.arg)
  | dbsize => .ok (.dbsize, [])
  | flushdb => .ok (.flushdb, [])
  | custom words => do
    let words ← Arg.checkAll (← nonempty words "custom command arguments")
    if cluster then checkCluster words
    return (.customCommand, words)
  | delete keys => onKeys .del keys
  | .exists keys => onKeys .exists keys
  | expire key seconds => onKeyNumber .expire key seconds
  | ttl key => onKey .ttl key
  | persist key => onKey .persist key
  | type key => onKey .type key
  | rename key newKey => onKeyAnd .rename key newKey
  | move key database => onKeyNumber .move key database
  | copy source destination database replace =>
    copyRequest cluster source destination database replace
  | scan cursor options? => onKeyWith .scan cursor options?
  | dump key => onKey .dump key
  | restore key lifetime payload options? => do
    let key ← Arg.check key
    let args ← (ArgList.add [key] lifetime).toExcept
    let payload ← Arg.check payload
    return (.restore, args ++ payload :: (← Options.wordsOf options?))
  | set key value options? => onKeyValueWith .set key value options?
  | get key => onKey .get key
  | getex key options? => onKeyWith .getex key options?
  | append key value => onKeyAnd .append key value
  | incr key => onKey .incr key
  | incrby key amount => onKeyNumber .incrby key amount
  | decr key => onKey .decr key
  | decrby key amount => onKeyNumber .decrby key amount
  | mset ps => do return (.mset, ← pairArgs (← pairs ps "key values"))
  | mget keys => onKeys .mget keys
  | strlen key => onKey .strlen key
  | hset key ps => do
    let key ← Arg.check key
    return (.hset, key :: (← pairArgs (← pairs ps "field values")))
  | hget key field => onKeyAnd .hget key field
  | hdel key fields => onKeyEach .hdel key fields "fields"
  | hgetall key => onKey .hgetall key
  | hexists key field => onKeyAnd .hexists key field
  | hlen key => onKey .hlen key
  | lpush key elements => onKeyEach .lpush key elements "elements"
  | rpush key elements => onKeyEach .rpush key elements "elements"
  | lpop key => onKey .lpop key
  | rpop key => onKey .rpop key
  | llen key => onKey .llen key
  | lrange key first last => do
    let key ← Arg.check key
    let args ← (ArgList.add [key] first).toExcept
    return (.lrange, ← (ArgList.add args last).toExcept)
  | lpos key element options? => onKeyValueWith .lpos key element options?
  | sadd key members => onKeyEach .sadd key members "members"
  | srem key members => onKeyEach .srem key members "members"
  | smembers key => onKey .smembers key
  | sismember key member => onKeyAnd .sismember key member
  | scard key => onKey .scard key
  | zadd key scores => do
    let key ← Arg.check key
    return (.zadd, key :: (← scoreArgs (← pairs scores "member scores")))
  | zrem key members => onKeyEach .zrem key members "members"
  | zscore key member => onKeyAnd .zscore key member
  | zcard key => onKey .zcard key
  | zrange key query => do
    let key ← Arg.check key
    return (.zrange, key :: (← query.toArgs))
  | zpopmin key options? => onKeyWith .zpopmin key options?
  | zpopmax key options? => onKeyWith .zpopmax key options?
  | geoadd key places options? => do
    let key ← Arg.check key
    let options ← Options.wordsOf options?
    if places.isEmpty then throw (.option (.nothingGiven "members"))
    return (.geoadd, key :: options ++ (← namedPlaces places))
  | functionLoad code replace => do
    let code ← Arg.check code
    return (.functionLoad, (if replace then [Keyword.replace.arg] else []) ++ [code])
  | functionFlush mode? =>
    .ok (.functionFlush, mode?.toList.map Choice.arg)
  | functionDump => .ok (.functionDump, [])
  | functionRestore payload policy? => do
    let payload ← Arg.check payload
    return (.functionRestore, payload :: policy?.toList.map Choice.arg)
  | fcall function keys arguments => functionCall .fcall function keys arguments
  | fcallReadonly function keys arguments => functionCall .fcallReadonly function keys arguments

end Call

/-- Makes a call on a batch. -/
def Batch.call (b : Batch) (c : Call) : Except Failure Batch := do
  let (t, args) ← c.request b.cluster
  b.append t args

end BatchStore
