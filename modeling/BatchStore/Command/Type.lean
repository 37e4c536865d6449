/-!
# The catalogue of commands

Each command is of a type. A type has a name of one or two words in capitals and bounds
on the number of its arguments: the least number is checked when a command is built,
and both are checked again when the store runs it.
-/

namespace BatchStore

/-- What a command asks for. The lines go by what the commands work on: the server, keys
of any kind, strings, hashes, lists, sets, sorted sets, function libraries. -/
inductive CommandType where
  | ping | echo | select | info | dbsize | flushdb | customCommand
  | del | exists | expire | ttl | persist | type | rename | move | copy | scan | dump | restore
  | set | get | getex | append | incr | incrby | decr | decrby | mset | mget | strlen
  | hset | hget | hdel | hgetall | hexists | hlen
  | lpush | rpush | lpop | rpop | llen | lrange | lpos
  | sadd | srem | smembers | sismember | scard
  | zadd | zrem | zscore | zcard | zrange | zpopmin | zpopmax | geoadd
  | functionLoad | functionFlush | functionDump | functionRestore | fcall | fcallReadonly
deriving DecidableEq, Repr

namespace CommandType

/-- Every type of command. -/
def all : List CommandType :=
  [.ping, .echo, .select, .info, .dbsize, .flushdb, .customCommand, .del, .exists, .expire,
   .ttl, .persist, .type, .rename, .move, .copy, .scan, .dump, .restore, .set, .get, .getex,
   .append, .incr, .incrby, .decr, .decrby, .mset, .mget, .strlen, .hset, .hget, .hdel,
   .hgetall, .hexists, .hlen, .lpush, .rpush, .lpop, .rpop, .llen, .lrange, .lpos, .sadd,
   .srem, .smembers, .sismember, .scard, .zadd, .zrem, .zscore, .zcard, .zrange, .zpopmin,
   .zpopmax, .geoadd, .functionLoad, .functionFlush, .functionDump, .functionRestore, .fcall,
   .fcallReadonly]

/-- The name in the catalogue. -/
def name : CommandType → String
  | .ping => "PING"
  | .echo => "ECHO"
  | .select => "SELECT"
  | .info => "INFO"
  | .dbsize => "DBSIZE"
  | .flushdb => "FLUSHDB"
  | .customCommand => "CUSTOM_COMMAND"
  | .del => "DEL"
  | .exists => "EXISTS"
  | .expire => "EXPIRE"
  | .ttl => "TTL"
  | .persist => "PERSIST"
  | .type => "TYPE"
  | .rename => "RENAME"
  | .move => "MOVE"
  | .copy => "COPY"
  | .scan => "SCAN"
  | .dump => "DUMP"
  | .restore => "RESTORE"
  | .set => "SET"
  | .get => "GET"
  | .getex => "GETEX"
  | .append => "APPEND"
  | .incr => "INCR"
  | .incrby => "INCRBY"
  | .decr => "DECR"
  | .decrby => "DECRBY"
  | .mset => "MSET"
  | .mget => "MGET"
  | .strlen => "STRLEN"
  | .hset => "HSET"
  | .hget => "HGET"
  | .hdel => "HDEL"
  | .hgetall => "HGETALL"
  | .hexists => "HEXISTS"
  | .hlen => "HLEN"
  | .lpush => "LPUSH"
  | .rpush => "RPUSH"
  | .lpop => "LPOP"
  | .rpop => "RPOP"
  | .llen => "LLEN"
  | .lrange => "LRANGE"
  | .lpos => "LPOS"
  | .sadd => "SADD"
  | .srem => "SREM"
  | .smembers => "SMEMBERS"
  | .sismember => "SISMEMBER"
  | .scard => "SCARD"
  | .zadd => "ZADD"
  | .zrem => "ZREM"
  | .zscore => "ZSCORE"
  | .zcard => "ZCARD"
  | .zrange => "ZRANGE"
  | .zpopmin => "ZPOPMIN"
  | .zpopmax => "ZPOPMAX"
  | .geoadd => "GEOADD"
  | .functionLoad => "FUNCTION LOAD"
  | .functionFlush => "FUNCTION FLUSH"
  | .functionDump => "FUNCTION DUMP"
  | .functionRestore => "FUNCTION RESTORE"
  | .fcall => "FCALL"
  | .fcallReadonly => "FCALL_RO"

/-- The type of a name. -/
def ofName? (s : String) : Option CommandType := all.find? fun t => t.name == s

/-- The least number of arguments. -/
def minArity : CommandType → Nat
  | .ping | .info | .dbsize | .flushdb | .functionFlush | .functionDump => 0
  | .echo | .select | .customCommand | .del | .exists | .ttl | .persist | .type | .scan
  | .dump | .get | .getex | .incr | .decr | .mget | .strlen | .hgetall | .hlen | .lpop
  | .rpop | .llen | .smembers | .scard | .zcard | .zpopmin | .zpopmax | .functionLoad
  | .functionRestore => 1
  | .expire | .rename | .move | .copy | .set | .append | .incrby | .decrby | .mset | .hget
  | .hdel | .hexists | .lpush | .rpush | .lpos | .sadd | .srem | .sismember | .zrem
  | .zscore | .fcall | .fcallReadonly => 2
  | .restore | .hset | .lrange | .zadd | .zrange => 3
  | .geoadd => 4

/-- The greatest number of arguments, for types that take a fixed number. -/
def maxArity? : CommandType → Option Nat
  | .dbsize | .flushdb | .functionDump => some 0
  | .ping | .echo | .select | .ttl | .persist | .type | .dump | .get | .incr | .decr
  | .strlen | .hgetall | .hlen | .lpop | .rpop | .llen | .smembers | .scard | .zcard
  | .functionFlush => some 1
  | .expire | .rename | .move | .append | .incrby | .decrby | .hget | .hexists | .sismember
  | .zscore | .zpopmin | .zpopmax | .functionRestore => some 2
  | .lrange => some 3
  | _ => none

/-- Whether a command of this type may carry `n` arguments. -/
def admits (t : CommandType) (n : Nat) : Bool :=
  t.minArity ≤ n && t.maxArity?.all (n ≤ ·)

/-- Whether a batch for a cluster may hold the type: one that names databases, or goes
through all keys, may not be in it. -/
def allowedInCluster : CommandType → Bool
  | .select | .move | .scan => false
  | _ => true

theorem mem_all (t : CommandType) : t ∈ all := by cases t <;> decide

theorem ofName?_name (t : CommandType) : ofName? t.name = some t := by cases t <;> rfl

/-- No two types share a name. -/
theorem name_injective {t u : CommandType} (h : t.name = u.name) : t = u := by
  have hSome : some t = some u := by rw [← ofName?_name t, ← ofName?_name u, h]
  exact Option.some.inj hSome

end CommandType

end BatchStore
