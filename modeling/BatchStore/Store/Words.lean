import BatchStore.Number.Numeral
import BatchStore.Options.Keyword
import BatchStore.Store.Keyspace

/-!
# Words that the store reads

Numbers and lifetimes among the arguments of a command, as the store understands them.
-/

namespace BatchStore

/-- A whole number, or a refusal. -/
def readInt (w : Octets) : Except Halt Int :=
  match Number.int? w with
  | some n => .ok n
  | none => refuse .notAnInteger

/-- A double, or a refusal. -/
def readReal (w : Octets) : Except Halt Float :=
  match Number.real? w with
  | some x => .ok x
  | none => refuse .notAFloat

/-- A text, or the fault of octets that are none. -/
def readText (w : Octets) : Except Halt String :=
  match w.decode? with
  | .ok s => .ok s
  | .error e => breakDown (.notUtf8 e)

/-- A whole number as a double. -/
def asReal (n : Int) : Except Halt Float :=
  match Number.ofInt? n with
  | some x => .ok x
  | none => breakDown .integerTooLarge

/-- Milliseconds as seconds. -/
def asSeconds (milliseconds : Int) : Except Halt Float :=
  match Number.thousandth? milliseconds with
  | some x => .ok x
  | none => breakDown .quotientTooLarge

/-- The deadline that an expiry keyword and its number set. A lifetime from now on must
be positive; a moment may be any. -/
def deadlineOf (now : Float) (unit : Keyword) (amount : Int) : Except Halt Float :=
  match unit with
  | .ex => if amount ≤ 0 then refuse .invalidExpireTime else (asReal amount).map (now + ·)
  | .px => if amount ≤ 0 then refuse .invalidExpireTime else (asSeconds amount).map (now + ·)
  | .exat => asReal amount
  | _ => asSeconds amount

/-- Words taken two at a time; an odd one out makes it fail. -/
def pairUp : List Octets → Option (List (Octets × Octets))
  | [] => some []
  | [_] => none
  | a :: b :: rest => (pairUp rest).map ((a, b) :: ·)

/-- Whether a keyword sets a deadline. -/
def Keyword.setsDeadline : Keyword → Bool
  | .ex | .px | .exat | .pxat => true
  | _ => false

end BatchStore
