import BatchStore.Argument
import BatchStore.Text.Capitals

/-!
# Commands

A command is a type with its arguments. `build` makes one if there are enough
arguments. A custom command spells its type out in its first words; `resolve?` finds
the type, whatever the letter case.
-/

namespace BatchStore

/-- A type of command with its arguments. -/
structure Command where
  type : CommandType
  args : ArgList
deriving DecidableEq, Repr

namespace Command

/-- The name in the catalogue. -/
def name (c : Command) : String := c.type.name

/-- A command with enough arguments. -/
def build (t : CommandType) (args : ArgList) : Except Failure Command :=
  if args.length < t.minArity then .error (.arguments (.tooFew t args.length))
  else .ok ⟨t, args⟩

/-- Takes values for the arguments of a command of type `t`. -/
def argsOf (t : CommandType) : List Datum → Except Failure ArgList
  | [] => .ok []
  | v :: vs =>
    match Arg.ofDatum? v with
    | none => .error (.arguments (.argumentType t v.typeName))
    | some a => do return a :: (← argsOf t vs)

/-- A command from values of any type: there must be enough, and then each must be an
argument. -/
def ofData (t : CommandType) (vs : List Datum) : Except Failure Command :=
  if vs.length < t.minArity then .error (.arguments (.tooFew t vs.length))
  else do build t (← argsOf t vs)

theorem build_eq_ok {t : CommandType} {args : ArgList} {c : Command}
    (h : build t args = .ok c) : c = ⟨t, args⟩ ∧ t.minArity ≤ args.length := by
  simp only [build] at h
  split at h
  · cases h
  · rename_i hLen
    cases h
    exact ⟨rfl, Nat.le_of_not_lt hLen⟩

end Command

/-! ## Custom commands -/

/-- An argument as a text in capitals. -/
def Arg.capitals : Arg → String
  | .text s => Text.capitals s
  | .octets w => Text.capitals w.decodeLossy

namespace CommandType

/-- The type of a name, the custom type apart. -/
def ofWord? (s : String) : Option CommandType :=
  (ofName? s).filter (· != .customCommand)

/-- The type that the first words of a custom command spell, and the count of these
words. Two words together come before the first alone. -/
def resolve? : ArgList → Option (CommandType × Nat)
  | [] => none
  | [a] => (ofWord? a.capitals).map (·, 1)
  | a :: b :: _ =>
    match ofWord? (a.capitals ++ " " ++ b.capitals) with
    | some t => some (t, 2)
    | none => (ofWord? a.capitals).map (·, 1)

end CommandType

end BatchStore
