import BatchStore.Proofs.Octets.Utf8
import BatchStore.Store.Run

/-!
# What a command asks for

A command is carried out as a request: a type with the arguments in octets. `request?` is the
request of a command; a custom command has one if its first words spell a type.

The words of a custom command may be texts or octet strings. The batch looks at them as they
are and the store at their octets, and both find the same type: `resolve?_toOctets`.
-/

namespace BatchStore

/-- A word in capitals is the same whether it is a text or the octets of the text. -/
theorem Arg.capitals_toOctets (a : Arg) : (Arg.octets a.toOctets).capitals = a.capitals := by
  cases a with
  | text s =>
      show Text.capitals (Octets.ofText s).decodeLossy = Text.capitals s
      rw [Octets.decodeLossy_ofText]
  | octets w => rfl

/-- The words of a custom command spell the same type in octets. -/
theorem CommandType.resolve?_toOctets (words : ArgList) :
    resolve? ((words.map Arg.toOctets).map .octets) = resolve? words := by
  match words with
  | [] => rfl
  | [a] =>
      show (ofWord? (Arg.octets a.toOctets).capitals).map _ = (ofWord? a.capitals).map _
      rw [Arg.capitals_toOctets]
  | a :: b :: rest =>
      simp only [List.map_cons, resolve?, Arg.capitals_toOctets]

/-- The type and the arguments that a command is carried out with, if there is a type. -/
def Command.request? (c : Command) : Option (CommandType × List Octets) :=
  match c.type with
  | .customCommand =>
    (CommandType.resolve? c.args).map fun r => (r.1, (c.args.map Arg.toOctets).drop r.2)
  | t => some (t, c.args.map Arg.toOctets)

/-- A type without a greatest number of arguments admits any that are enough. -/
theorem CommandType.admits_open {t : CommandType} (hOpen : t.maxArity? = none) {n : Nat}
    (h : t.minArity ≤ n) : t.admits n = true := by
  unfold CommandType.admits
  rw [hOpen, decide_eq_true h]
  rfl

/-- One word behind the key is enough for a command of open arity that asks for two. -/
theorem CommandType.admits_words {t : CommandType} (hOpen : t.maxArity? = none)
    (hTwo : t.minArity = 2) {words : List Octets} (hSome : words ≠ []) :
    t.admits (words.length + 1) = true := by
  apply CommandType.admits_open hOpen
  rw [hTwo]
  exact Nat.succ_le_succ (List.length_pos_iff.2 hSome)

/-! ## Words that are read -/

theorem readInt_of_int? {w : Octets} {n : Int} (h : Number.int? w = some n) :
    readInt w = .ok n := by
  unfold readInt
  rw [h]

theorem readReal_of_real? {w : Octets} {x : Float} (h : Number.real? w = some x) :
    readReal w = .ok x := by
  unfold readReal
  rw [h]

theorem readText_ofText (s : String) : readText (Octets.ofText s) = .ok s := by
  unfold readText
  rw [Octets.decode?_ofText]

/-! ## A command is carried out as its request -/

namespace Store

/-- A command is carried out as its request; one without a request is refused. -/
theorem run_eq (now : Float) (c : Command) (s : Store) :
    run now c s =
      match c.request? with
      | some (t, args) => runType now t args s
      | none =>
        (refuse (.unknownCommand ((c.args.map Arg.toOctets).headD []).decodeLossy), s) := by
  obtain ⟨t, args⟩ := c
  by_cases hCustom : t = .customCommand
  · subst hCustom
    simp only [run, runCustom, Command.request?, CommandType.resolve?_toOctets]
    rcases CommandType.resolve? args with _ | ⟨t, words⟩ <;> rfl
  · cases t <;> first | rfl | exact absurd rfl hCustom

theorem run_of_request? {now : Float} {c : Command} {t : CommandType} {args : List Octets}
    (h : c.request? = some (t, args)) (s : Store) : run now c s = runType now t args s := by
  rw [run_eq, h]

/-- A request with enough arguments, of a type that takes any number, is carried out. -/
theorem run_of_open {now : Float} {c : Command} {t : CommandType} {args : List Octets}
    (h : c.request? = some (t, args)) (hOpen : t.maxArity? = none)
    (hMany : t.minArity ≤ args.length) : run now c = step now t args := by
  funext s
  rw [run_of_request? h, runType, if_pos (CommandType.admits_open hOpen hMany)]

end Store

end BatchStore
