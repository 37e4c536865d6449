import BatchStore.Command
import BatchStore.Store.Backup
import BatchStore.Store.Places
import BatchStore.Store.Keys
import BatchStore.Store.Libraries
import BatchStore.Store.Lists
import BatchStore.Store.Scan
import BatchStore.Store.Server
import BatchStore.Store.Sets
import BatchStore.Store.Strings

/-!
# Running a command

`Store.run` carries a command out: it puts the arguments into octets, finds the type
that the words of a custom command spell, checks the number of arguments, and hands them
to the step of the type.
-/

namespace BatchStore

namespace Store

/-- Answers how many keys a step counts. -/
def countKeys (now : Float) (step : KeyStep) (keys : List Octets) : Step :=
  andThen (onEach now step keys) fun replies s => (.ok (.int (total replies)), s)

/-- Answers the replies of a step on each key. -/
def listKeys (now : Float) (step : KeyStep) (keys : List Octets) : Step :=
  andThen (onEach now step keys) fun replies s => (.ok (.list replies), s)

/-- Changes the number at a key by an amount that is read first. -/
def addRead (now : Float) (key amount : Octets) (sign : Int) : Step :=
  given (readInt amount) fun amount => onKey now key (Strings.add (sign * amount))

/-- The step of a type of command on its arguments. -/
def step (now : Float) : CommandType → List Octets → Step
  -- connection and server
  | .ping, args => Server.ping args.head?
  | .echo, [message] => fun s => (.ok (.octets message), s)
  | .select, [index] => Server.select index
  | .info, _ => Server.info now
  | .dbsize, _ => Server.dbsize now
  | .flushdb, _ => Server.flushdb
  -- keys of any kind
  | .del, keys => countKeys now Keys.delete keys
  | .exists, keys => countKeys now Keys.exists? keys
  | .expire, [key, seconds] => Keys.expire now key seconds
  | .ttl, [key] => onKey now key (Keys.ttl now)
  | .persist, [key] => onKey now key Keys.persist
  | .type, [key] => onKey now key Keys.type
  | .rename, [key, newKey] => Keys.rename now key newKey
  | .move, [key, index] => Keys.move now key index
  | .copy, source :: destination :: options => Keys.copy now source destination options
  | .scan, cursor :: options => Scan.scan now cursor options
  | .dump, [key] => onKey now key Backup.dump
  | .restore, key :: lifetime :: payload :: options =>
    Backup.restore now key lifetime payload options
  -- strings
  | .set, key :: value :: options => Strings.set now key value options
  | .get, [key] => onKey now key Strings.get
  | .getex, key :: options => onKey now key (Strings.getex now options)
  | .append, [key, value] => onKey now key (Strings.append value)
  | .incr, [key] => onKey now key (Strings.add 1)
  | .incrby, [key, amount] => addRead now key amount 1
  | .decr, [key] => onKey now key (Strings.add (-1))
  | .decrby, [key, amount] => addRead now key amount (-1)
  | .mset, words => Strings.mset words
  | .mget, keys => listKeys now Strings.peek keys
  | .strlen, [key] => onKey now key Strings.strlen
  -- hashes
  | .hset, key :: words => Hashes.hset now key words
  | .hget, [key, field] => onKey now key (Hashes.hget field)
  | .hdel, key :: fields => onKey now key (Hashes.hdel fields)
  | .hgetall, [key] => onKey now key Hashes.hgetall
  | .hexists, [key, field] => onKey now key (Hashes.hexists field)
  | .hlen, [key] => onKey now key Hashes.hlen
  -- lists
  | .lpush, key :: elements => onKey now key (Lists.pushStep .left elements)
  | .rpush, key :: elements => onKey now key (Lists.pushStep .right elements)
  | .lpop, [key] => onKey now key (Lists.popStep .left)
  | .rpop, [key] => onKey now key (Lists.popStep .right)
  | .llen, [key] => onKey now key Lists.llen
  | .lrange, [key, first, last] => onKey now key (Lists.lrange first last)
  | .lpos, key :: element :: options => Lists.lpos now key element options
  -- sets
  | .sadd, key :: members => onKey now key (Sets.sadd members)
  | .srem, key :: members => onKey now key (Sets.srem members)
  | .smembers, [key] => onKey now key Sets.smembers
  | .sismember, [key, member] => onKey now key (Sets.sismember member)
  | .scard, [key] => onKey now key Sets.scard
  -- sorted sets
  | .zadd, key :: words => SortedSets.zadd now key words
  | .zrem, key :: members => onKey now key (SortedSets.zrem members)
  | .zscore, [key, member] => onKey now key (SortedSets.zscore member)
  | .zcard, [key] => onKey now key SortedSets.zcard
  | .zrange, key :: first :: last :: options => SortedSets.zrange now key first last options
  | .zpopmin, key :: count => SortedSets.zpop now .least key count.head?
  | .zpopmax, key :: count => SortedSets.zpop now .greatest key count.head?
  -- places
  | .geoadd, key :: words => Places.geoadd now key words
  -- function libraries
  | .functionLoad, first :: rest => Libraries.load first ((first :: rest).getLast?.getD [])
  | .functionFlush, _ => Libraries.flush
  | .functionDump, _ => Libraries.dump
  | .functionRestore, payload :: policy => Libraries.restore payload policy.head?
  | .fcall, function :: numkeys :: words => Libraries.call function numkeys words
  | .fcallReadonly, function :: numkeys :: words => Libraries.call function numkeys words
  -- too few or too many arguments
  | t, _ => fun s => (refuse (.wrongArity t), s)

/-- Carries out a request whose type is known. -/
def runType (now : Float) (t : CommandType) (args : List Octets) : Step := fun s =>
  if t.admits args.length then step now t args s else (refuse (.wrongArity t), s)

/-- Carries out a custom command: its first words say what it is. -/
def runCustom (now : Float) (args : List Octets) : Step := fun s =>
  match CommandType.resolve? (args.map .octets) with
  | some (t, words) => runType now t (args.drop words) s
  | none => (refuse (.unknownCommand (args.headD []).decodeLossy), s)

/-- Carries out a command. -/
def run (now : Float) (c : Command) : Step := fun s =>
  let args := c.args.map Arg.toOctets
  match c.type with
  | .customCommand => runCustom now args s
  | t => runType now t args s

end Store

end BatchStore
