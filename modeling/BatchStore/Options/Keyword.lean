import BatchStore.Argument

/-!
# Option keywords

The words that introduce options in an argument list. A command is written with the
capitals given here; the store takes the letters in either case.
-/

namespace BatchStore

/-- A word that introduces or is an option. -/
inductive Keyword where
  | nx | xx | ifeq | get | keepttl
  | ex | px | exat | pxat | persist
  | replace | absttl | idletime | freq | db
  | pattern | count | type
  | rank | maxlen
  | byscore | bylex | rev | limit
  | ch
  | sync | async | append | flush
deriving DecidableEq, Repr

namespace Keyword

/-- Every keyword. -/
def all : List Keyword :=
  [.nx, .xx, .ifeq, .get, .keepttl, .ex, .px, .exat, .pxat, .persist, .replace, .absttl,
   .idletime, .freq, .db, .pattern, .count, .type, .rank, .maxlen, .byscore, .bylex, .rev,
   .limit, .ch, .sync, .async, .append, .flush]

/-- The keyword in capitals. -/
def word : Keyword → String
  | nx => "NX"
  | xx => "XX"
  | ifeq => "IFEQ"
  | get => "GET"
  | keepttl => "KEEPTTL"
  | ex => "EX"
  | px => "PX"
  | exat => "EXAT"
  | pxat => "PXAT"
  | persist => "PERSIST"
  | replace => "REPLACE"
  | absttl => "ABSTTL"
  | idletime => "IDLETIME"
  | freq => "FREQ"
  | db => "DB"
  | pattern => "MATCH"
  | count => "COUNT"
  | type => "TYPE"
  | rank => "RANK"
  | maxlen => "MAXLEN"
  | byscore => "BYSCORE"
  | bylex => "BYLEX"
  | rev => "REV"
  | limit => "LIMIT"
  | ch => "CH"
  | sync => "SYNC"
  | async => "ASYNC"
  | append => "APPEND"
  | flush => "FLUSH"

/-- The keyword as an argument. -/
def arg (k : Keyword) : Arg := .text k.word

/-- The octets of the keyword in capitals. -/
def octets (k : Keyword) : Octets := Octets.ofText k.word

/-- The keyword that a word is, letter case aside. -/
def ofOctets? (w : Octets) : Option Keyword :=
  let u := w.upper
  all.find? fun k => k.octets == u

theorem ofOctets?_octets (k : Keyword) : ofOctets? k.octets = some k := by
  cases k <;> decide +kernel

theorem upper_of_ofOctets? {w : Octets} {k : Keyword} (h : ofOctets? w = some k) :
    w.upper = k.octets := by
  have hFound := List.find?_some h
  exact (eq_of_beq hFound).symm

/-- Only the letters of the capital form count. -/
theorem ofOctets?_eq_of_upper_eq {v w : Octets} (h : v.upper = w.upper) :
    ofOctets? v = ofOctets? w := by
  simp only [ofOctets?, h]

end Keyword

end BatchStore
