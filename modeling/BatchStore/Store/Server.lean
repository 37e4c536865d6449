import BatchStore.Store.Words

/-!
# Connection and server

Commands that concern no single key: greetings, the selected database, and counts of
keys.
-/

namespace BatchStore.Server

/-- PING answers its argument, or a word of its own. -/
def ping (message? : Option Octets) : Step := fun s =>
  (.ok (message?.elim (.text "PONG") .octets), s)

/-- SELECT index. -/
def select (index : Octets) : Step := fun s =>
  Store.given ((readInt index).bind s.index?)
    (fun i s => (.ok okReply, { s with selected := i })) s

/-- DBSIZE counts the keys of the selected database. -/
def dbsize (now : Float) : Step := Store.withSelected fun i s =>
  let s := s.settleAll now i
  (.ok (.int (s.database i).size), s)

/-- FLUSHDB empties the selected database. -/
def flushdb : Step := Store.withSelected fun i s => (.ok okReply, s.setDatabase i .empty)

/-- How many keys of a database have a deadline. -/
def deadlines (db : Database) : Nat := (db.values.filter fun e => e.deadline?.isSome).length

/-- The line of INFO on a database with so many keys and deadlines, if it has keys. -/
def countsLine (i keys deadlines : Nat) : List String :=
  if keys = 0 then []
  else ["db" ++ toString i ++ ":keys=" ++ toString keys ++ ",expires=" ++ toString deadlines]

/-- The line of INFO on a database. -/
def infoLine (i : Nat) (db : Database) : List String := countsLine i db.size (deadlines db)

/-- The text of INFO with its lines on databases, each with its end. -/
def textOfLines (lines : List String) : String :=
  String.join (("# Keyspace" :: lines).map (· ++ "\r\n"))

/-- The text of INFO. -/
def infoText (databases : List Database) : String :=
  textOfLines (databases.zipIdx.flatMap fun e => infoLine e.2 e.1)

/-- INFO counts the keys of all databases, whatever sections are asked for. -/
def info (now : Float) : Step := fun s =>
  let s := s.sweep now
  (.ok (.octets (Octets.ofText (infoText s.databases))), s)

end BatchStore.Server
