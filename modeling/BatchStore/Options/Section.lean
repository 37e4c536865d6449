/-!
# Sections of the server's report

INFO can be asked for some parts of its report by name.
-/

namespace BatchStore

/-- The parts of INFO. -/
inductive InfoSection where
  | server | clients | memory | persistence | stats | replication | cpu
  | commandstats | latencystats | keyspace | errorstats | all | default | everything
deriving DecidableEq, Repr

namespace InfoSection

def word : InfoSection → String
  | server => "server"
  | clients => "clients"
  | memory => "memory"
  | persistence => "persistence"
  | stats => "stats"
  | replication => "replication"
  | cpu => "cpu"
  | commandstats => "commandstats"
  | latencystats => "latencystats"
  | keyspace => "keyspace"
  | errorstats => "errorstats"
  | all => "all"
  | default => "default"
  | everything => "everything"

def ofWord? (s : String) : Option InfoSection :=
  [server, clients, memory, persistence, stats, replication, cpu, commandstats, latencystats,
   keyspace, errorstats, all, default, everything].find? fun p => p.word == s

end InfoSection

end BatchStore
