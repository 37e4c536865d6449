import BatchStore.Number.Fixed
import BatchStore.Command.Type

/-!
# Refusals

A refusal is the store's answer to a single command that it will not carry out.
In a pipeline it takes the place of that command's reply; in a transaction it
undoes everything.
-/

namespace BatchStore

/-- Why the store refuses a command. -/
inductive Refusal where
  /-- The key holds a value of another kind. -/
  | wrongType
  | notAnInteger
  | notAFloat
  | syntaxError
  /-- The words of a custom command name no type of command. -/
  | unknownCommand (name : String)
  | wrongArity (command : CommandType)
  | databaseOutOfRange
  /-- Source and destination of a transfer are one. -/
  | sameObject
  | noSuchKey
  | invalidCursor
  /-- A restore would overwrite a key. -/
  | busyKey
  | badPayload
  | notAFunctionDump
  | invalidExpireTime
  | zeroRank
  | badRangeItem
  | invalidPoint (longitude latitude : Float)
  | missingMetadata
  /-- A library to be loaded is there already. -/
  | libraryExists (name : String)
  /-- A library to be restored is there already. -/
  | libraryClash (name : String)
  | tooManyKeys
  | functionNotFound
  | functionsUnsupported
  /-- A refusal that another store worded. -/
  | other (message : String)
deriving DecidableEq

namespace Refusal

/-- The wording of a refusal. -/
def message : Refusal → String
  | wrongType => "WRONGTYPE Operation against a key holding the wrong kind of value"
  | notAnInteger => "ERR value is not an integer or out of range"
  | notAFloat => "ERR value is not a valid float"
  | syntaxError => "ERR syntax error"
  | unknownCommand name => "ERR unknown command '" ++ name ++ "'"
  | wrongArity command =>
    "ERR wrong number of arguments for '" ++ command.name.toLower ++ "' command"
  | databaseOutOfRange => "ERR DB index is out of range"
  | sameObject => "ERR source and destination objects are the same"
  | noSuchKey => "ERR no such key"
  | invalidCursor => "ERR invalid cursor"
  | busyKey => "BUSYKEY Target key name already exists."
  | badPayload => "ERR DUMP payload version or checksum are wrong"
  | notAFunctionDump => "ERR payload is not a function dump"
  | invalidExpireTime => "ERR invalid expire time in 'set' command"
  | zeroRank => "ERR RANK can't be zero"
  | badRangeItem => "ERR min or max not valid string range item"
  | invalidPoint longitude latitude =>
    "ERR invalid longitude,latitude pair " ++ Number.fixed 6 longitude ++ ","
      ++ Number.fixed 6 latitude
  | missingMetadata => "ERR Missing library metadata"
  | libraryExists name => "ERR Library '" ++ name ++ "' already exists"
  | libraryClash name => "ERR Library " ++ name ++ " already exists"
  | tooManyKeys => "ERR Number of keys can't be greater than number of args"
  | functionNotFound => "ERR Function not found"
  | functionsUnsupported => "ERR function execution is not supported by the in-memory store"
  | other message => message

end Refusal

end BatchStore
