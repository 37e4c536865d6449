import BatchStore.Store.Execute
import BatchStore.Store.Halves.Collections
import BatchStore.Store.Halves.Strings
import BatchStore.Store.Split

/-!
# Running a command on databases in two tables

`Split.run` carries a command out as `Store.run` does: the type, the arguments and the number of
them are found in the same way, and each type of command has its edits.
-/

namespace BatchStore.Split

/-- Changes the number at a key by an amount that is read first. -/
def addRead (now : Float) (key amount : Octets) (sign : Int) : ActOn Split Datum :=
  Store.given (readInt amount) fun amount => onSelected (Halves.add now key (sign * amount))

/-- Sets fields of the hash at a key; the words must come in pairs. -/
def hset (now : Float) (key : Octets) (words : List Octets) : ActOn Split Datum :=
  match pairUp words with
  | none => fun m => (refuse (.wrongArity .hset), m)
  | some pairs => onSelected (Halves.hset now key pairs)

/-- Sets scores at a key; they are read before the key is looked at. -/
def zadd (now : Float) (key : Octets) (words : List Octets) : ActOn Split Datum :=
  match pairUp words with
  | none => fun m => (refuse .syntaxError, m)
  | some pairs =>
    Store.given (SortedSets.readScores pairs) fun pairs => onSelected (Halves.zadd now key pairs)

/-- Writes places to a key; they are read before the key is looked at. -/
def geoadd (now : Float) (key : Octets) (words : List Octets) : ActOn Split Datum :=
  let (flags, rest) := Places.Flags.read {} words
  match Places.triples rest with
  | none | some [] => fun m => (refuse .syntaxError, m)
  | some places =>
    Store.given (Places.readPlaces places) fun places =>
      onSelected (Halves.geoadd now key flags places)

/-- Pops members off an end of the ranking; the count is read first. -/
def zpop (now : Float) (e : SortedSets.Extreme) (key : Octets) (count? : Option Octets) :
    ActOn Split Datum :=
  Store.given (count?.mapM readInt) fun count? =>
    onSelected (Halves.zpop e now key (count?.getD 1))

/-- Answers from a key of the selected database. -/
def read (now : Float) (key : Octets) (step : KeyStep) : ActOn Split Datum :=
  onSelected (Halves.read now key step)

/-- The step of a type of command on its arguments. -/
def step (now : Float) : CommandType → List Octets → ActOn Split Datum
  -- connection and server
  | .ping, args => onOutline (Server.ping args.head?)
  | .echo, [message] => fun m => (.ok (.octets message), m)
  | .select, [index] => onOutline (Server.select index)
  | .info, _ => info now
  | .dbsize, _ => dbsize now
  | .flushdb, _ => flushdb
  -- keys of any kind
  | .del, keys => countKeys (Halves.delete now) keys
  | .exists, keys => countKeys (fun key => Halves.read now key Keys.exists?) keys
  | .expire, [key, seconds] =>
    Store.given (readInt seconds) fun seconds => onSelected (Halves.expire now key seconds)
  | .ttl, [key] => read now key (Keys.ttl now)
  | .persist, [key] => onSelected (Halves.unexpire now key)
  | .type, [key] => read now key Keys.type
  | .rename, [key, newKey] => rename now key newKey
  | .move, [key, index] => move now key index
  | .copy, source :: destination :: options => copy now source destination options
  | .scan, cursor :: options => scan now cursor options
  | .dump, [key] => read now key Backup.dump
  | .restore, key :: lifetime :: payload :: options =>
    Store.given (readInt lifetime) fun lifetime =>
      Store.given (Backup.RestorePlan.read {} options) fun plan =>
        onSelected (Halves.restore now key lifetime plan payload)
  -- strings
  | .set, key :: value :: options =>
    Store.given (Strings.SetPlan.read now {} options) fun plan =>
      onSelected (Halves.setString now key value plan)
  | .get, [key] => read now key Strings.get
  | .getex, key :: options => onSelected (Halves.getex now key options)
  | .append, [key, value] => onSelected (Halves.append now key value)
  | .incr, [key] => onSelected (Halves.add now key 1)
  | .incrby, [key, amount] => addRead now key amount 1
  | .decr, [key] => onSelected (Halves.add now key (-1))
  | .decrby, [key, amount] => addRead now key amount (-1)
  | .mset, words => mset words
  | .mget, keys => listKeys (fun key => Halves.read now key Strings.peek) keys
  | .strlen, [key] => read now key Strings.strlen
  -- hashes
  | .hset, key :: words => hset now key words
  | .hget, [key, field] => read now key (Hashes.hget field)
  | .hdel, key :: fields => onSelected (Halves.hdel now key fields)
  | .hgetall, [key] => read now key Hashes.hgetall
  | .hexists, [key, field] => read now key (Hashes.hexists field)
  | .hlen, [key] => read now key Hashes.hlen
  -- lists
  | .lpush, key :: elements => onSelected (Halves.push .left now key elements)
  | .rpush, key :: elements => onSelected (Halves.push .right now key elements)
  | .lpop, [key] => onSelected (Halves.pop .left now key)
  | .rpop, [key] => onSelected (Halves.pop .right now key)
  | .llen, [key] => read now key Lists.llen
  | .lrange, [key, first, last] => read now key (Lists.lrange first last)
  | .lpos, key :: element :: options =>
    Store.given (Lists.Search.read {} options) fun q => read now key (Lists.lposStep q element)
  -- sets
  | .sadd, key :: members => onSelected (Halves.sadd now key members)
  | .srem, key :: members => onSelected (Halves.srem now key members)
  | .smembers, [key] => read now key Sets.smembers
  | .sismember, [key, member] => read now key (Sets.sismember member)
  | .scard, [key] => read now key Sets.scard
  -- sorted sets
  | .zadd, key :: words => zadd now key words
  | .zrem, key :: members => onSelected (Halves.zrem now key members)
  | .zscore, [key, member] => read now key (SortedSets.zscore member)
  | .zcard, [key] => read now key SortedSets.zcard
  | .zrange, key :: first :: last :: options =>
    Store.given (SortedSets.RangePlan.read {} options) fun plan =>
      read now key (SortedSets.zrangeStep plan first last)
  | .zpopmin, key :: count => zpop now .least key count.head?
  | .zpopmax, key :: count => zpop now .greatest key count.head?
  -- places
  | .geoadd, key :: words => geoadd now key words
  -- function libraries
  | .functionLoad, first :: rest =>
    onOutline (Libraries.load first ((first :: rest).getLast?.getD []))
  | .functionFlush, _ => onOutline Libraries.flush
  | .functionDump, _ => onOutline Libraries.dump
  | .functionRestore, payload :: policy => onOutline (Libraries.restore payload policy.head?)
  | .fcall, function :: numkeys :: words => onOutline (Libraries.call function numkeys words)
  | .fcallReadonly, function :: numkeys :: words =>
    onOutline (Libraries.call function numkeys words)
  -- too few or too many arguments
  | t, _ => fun m => (refuse (.wrongArity t), m)

/-- Carries out a request whose type is known. -/
def runType (now : Float) (t : CommandType) (args : List Octets) : ActOn Split Datum := fun m =>
  if t.admits args.length then step now t args m else (refuse (.wrongArity t), m)

/-- Carries out a custom command: its first words say what it is. -/
def runCustom (now : Float) (args : List Octets) : ActOn Split Datum := fun m =>
  match CommandType.resolve? (args.map .octets) with
  | some (t, words) => runType now t (args.drop words) m
  | none => (refuse (.unknownCommand (args.headD []).decodeLossy), m)

/-- Carries out a command. -/
def run (now : Float) : Runner Split := fun c m =>
  let args := c.args.map Arg.toOctets
  match c.type with
  | .customCommand => runCustom now args m
  | t => runType now t args m

/-- Executes a submission. -/
def submission (now : Float) : Submission → Split → (Outcome × List Report) × Split :=
  Store.submissionBy (run now)

end BatchStore.Split
