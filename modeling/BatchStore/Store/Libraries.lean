import BatchStore.Datum.Same
import BatchStore.Octets.Search
import BatchStore.Store.Payload
import BatchStore.Store.Words

/-!
# Function libraries

A library is a piece of code with a name that its first line gives. The store keeps
libraries by name, dumps and restores them together, in any form of payloads, and knows
whether a function is in one of them; it does not run functions.

Loading puts octet strings there. Restoring puts what a payload holds, and names are then
one if they are worth the same.
-/

namespace BatchStore.Libraries

/-- What the first line of a library begins with. -/
def lineMark : Octets := Octets.ofText "#!"

/-- What stands in front of the name. -/
def nameMark : Octets := Octets.ofText "name="

/-- The name that the first line of a library gives. -/
def nameOf? (code : Octets) : Option Octets :=
  let line := code.firstLine
  if lineMark.isPrefixOf line then
    ((line.words.find? nameMark.isPrefixOf).map (·.drop nameMark.length)).filter (!·.isEmpty)
  else none

/-- The name of a library that is in the way, as a message shows it; it must be a string of
octets. -/
def shownName : Datum → Except Halt String
  | .octets w => readText w
  | d => breakDown (.notOctets d.typeName)

/-- FUNCTION LOAD words: the last word is the code, and REPLACE in the first lets it take
the place of a library of its name. -/
def load (first code : Octets) : Step :=
  match nameOf? code with
  | none => fun s => (refuse .missingMetadata, s)
  | some name => Store.withLibraries fun libraries =>
    let replace := Keyword.ofOctets? first == some .replace
    if libraries.contains (.octets name) && !replace then
      Store.given (readText name) fun shown s => (refuse (.libraryExists shown), s)
    else fun s =>
      (.ok (.octets name), { s with libraries := libraries.put (.octets name) (.octets code) })

/-- FUNCTION FLUSH. -/
def flush : Step := fun s => (.ok okReply, { s with libraries := .empty })

/-- Answers the payload of the libraries in a form. -/
def dumpBy (form : Payload.Form) : Step := Store.withLibraries fun libraries s =>
  (.ok (.octets (form.write (.mapping libraries.entries))), s)

/-- FUNCTION DUMP. -/
def dump : Step := dumpBy Payload.form

/-- The libraries with others written over them. -/
def merged (old new : Table Datum Datum) : Table Datum Datum :=
  ⟨Datum.putPairs old.entries new.entries⟩

/-- The first name of some libraries that is taken, unless it is null: then none counts as
taken, nor is any behind it looked at. -/
def clash? (old new : Table Datum Datum) : Option Datum :=
  (new.keys.find? fun name => name.isAmong old.keys).filter (· != .null)

/-- The libraries after a restore of others. -/
def restored (policy : Option Keyword) (old new : Table Datum Datum) :
    Except Halt (Table Datum Datum) :=
  match policy with
  | some .flush => .ok new
  | some .replace => .ok (merged old new)
  | some .append =>
    match clash? old new with
    | some clash => do
      let shown ← shownName clash
      refuse (.libraryClash shown)
    | none => .ok (merged old new)
  | _ => refuse .syntaxError

/-- The policy of a restore: without a word for it, no library may be in the way. -/
def policyOf (policy? : Option Octets) : Option Keyword :=
  policy?.elim (some .append) Keyword.ofOctets?

/-- Restores libraries from a payload in a form. -/
def restoreBy (form : Payload.Form) (payload : Octets) (policy? : Option Octets) : Step :=
  match form.read? payload with
  | none => fun s => (refuse .badPayload, s)
  | some (.mapping ps) => Store.withLibraries fun old =>
    Store.given (restored (policyOf policy?) old ⟨ps⟩) fun libraries s =>
      (.ok okReply, { s with libraries })
  | some _ => fun s => (refuse .notAFunctionDump, s)

/-- FUNCTION RESTORE payload policy. -/
def restore : Octets → Option Octets → Step := restoreBy Payload.form

/-- Whether a piece of code holds a needle: octets as a part of them, a container as what
stands in it. -/
def holdsNeedle (needle : Octets) : Datum → Except Fault Bool
  | .octets code => .ok (code.holds needle)
  | .text _ => .error .needleForText
  | code =>
    match code.elements? with
    | some parts => .ok ((Datum.octets needle).isAmong parts)
    | none => .error (.notAContainer code.typeName)

/-- Whether one of some pieces of code holds a needle; those behind it are not looked
at. -/
def anyHolds (needle : Octets) : List Datum → Except Fault Bool
  | [] => .ok false
  | code :: rest =>
    match holdsNeedle needle code with
    | .ok false => anyHolds needle rest
    | found => found

/-- What a call of a function looks for in the libraries: its name between quotes. -/
def needleOf (function : Octets) : Octets := 39 :: function ++ [39]

/-- The answer to a call of a function: always a refusal, but not always the same. -/
def called (libraries : Table Datum Datum) (function numkeys : Octets) (words : List Octets) :
    Reply := do
  let numkeys ← readInt numkeys
  if numkeys < 0 || (words.length : Int) < numkeys then refuse .tooManyKeys
  else
    match anyHolds (needleOf function) libraries.values with
    | .error f => breakDown f
    | .ok true => refuse .functionsUnsupported
    | .ok false => refuse .functionNotFound

/-- FCALL function numkeys words. -/
def call (function numkeys : Octets) (words : List Octets) : Step :=
  Store.withLibraries fun libraries s => (called libraries function numkeys words, s)

end BatchStore.Libraries
