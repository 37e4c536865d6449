import BatchStore.Options.Keyword
import BatchStore.Options.Lookup

/-!
# Options of restores

What happens to the keys or libraries that are there when a saved one is put back, and
how a restored key is to be evicted.
-/

namespace BatchStore

/-- What a restored key is to be evicted by. -/
inductive EvictionType where
  | idleTime
  | frequency
deriving DecidableEq, Repr

def EvictionType.keyword : EvictionType → Keyword
  | idleTime => .idletime
  | frequency => .freq

/-- The eviction type of a keyword in capitals. -/
def EvictionType.ofWord? (s : String) : Option EvictionType :=
  [idleTime, frequency].find? fun t => t.keyword.word == s

/-- The word in front of the number of a hint. No list is asked for by name there: the kind
of value that a scan asks for goes into the arguments too, and the store refuses it. -/
inductive EvictionWord where
  | type (t : EvictionType)
  | object (t : ObjectType)
deriving DecidableEq, Repr

/-- The word as an argument. -/
def EvictionWord.arg : EvictionWord → Arg
  | type t => t.keyword.arg
  | object t => .text t.word

/-- A hint for the eviction of a restored key. -/
structure Eviction where
  word : EvictionWord
  count : Datum

/-- Options of RESTORE. -/
structure RestoreOptions where
  replace : Bool := false
  /-- Whether the lifetime is a moment and not a span. -/
  absTtl : Bool := false
  eviction? : Option Eviction := none

def RestoreOptions.toArgs (o : RestoreOptions) : Except Failure ArgList := do
  let replace := if o.replace then [Keyword.replace.arg] else []
  let absTtl := if o.absTtl then [Keyword.absttl.arg] else []
  let eviction ←
    match o.eviction? with
    | none => .ok []
    | some e => do pure [e.word.arg, .text (← numberText e.count)]
  return replace ++ absTtl ++ eviction

/-- How FUNCTION FLUSH works. -/
inductive FlushMode where
  | sync
  | async
deriving DecidableEq, Repr

def FlushMode.keyword : FlushMode → Keyword
  | sync => .sync
  | async => .async

def FlushMode.ofWord? (s : String) : Option FlushMode :=
  [sync, async].find? fun m => m.keyword.word == s

/-- What FUNCTION RESTORE does with libraries of one name. -/
inductive RestorePolicy where
  | append
  | flush
  | replace
deriving DecidableEq, Repr

def RestorePolicy.keyword : RestorePolicy → Keyword
  | append => .append
  | flush => .flush
  | replace => .replace

def RestorePolicy.ofWord? (s : String) : Option RestorePolicy :=
  [append, flush, replace].find? fun p => p.keyword.word == s

end BatchStore
