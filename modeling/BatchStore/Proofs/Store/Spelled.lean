import BatchStore.Proofs.Store.Handled
import BatchStore.Proofs.Store.Request

/-!
# Custom commands

A custom command spells its type out: `Spells` says that words are the name of a type, in any case
of letters. The store looks at the first two words together before it looks at the first alone, so
that the argument behind a name of one word is looked at with it. But no name begins with another
name and a blank (`not_prefix_name`), and so what is found is what was spelled.

A spelled command is then carried out as the command of its type: same reply or failure, same
store. And as every type has its step, a command whose type is found is never called unknown.

## Main results

* `CommandType.resolve?_spelled`, `CommandType.spells_of_resolve?` — a type is found exactly where
  it is spelled.
* `Store.run_custom` — a spelled command is the command of its type.
-/

namespace BatchStore

namespace CommandType

/-- Whether these words, in capitals and with blanks between, are the name of a type. -/
def Spells : ArgList → CommandType → Prop
  | [a], t => a.capitals = t.name
  | [a, b], t => a.capitals ++ " " ++ b.capitals = t.name
  | _, _ => False

instance : (words : ArgList) → (t : CommandType) → Decidable (Spells words t)
  | [], _ => inferInstanceAs (Decidable False)
  | [a], t => inferInstanceAs (Decidable (a.capitals = t.name))
  | [a, b], t => inferInstanceAs (Decidable (a.capitals ++ " " ++ b.capitals = t.name))
  | _ :: _ :: _ :: _, _ => inferInstanceAs (Decidable False)

theorem ofName?_eq_some_iff {s : String} {t : CommandType} : ofName? s = some t ↔ s = t.name := by
  constructor
  · intro h
    have hFound := List.find?_some h
    exact (beq_iff_eq.1 hFound).symm
  · rintro rfl
    exact ofName?_name t

theorem ofWord?_eq_some_iff {s : String} {t : CommandType} :
    ofWord? s = some t ↔ s = t.name ∧ t ≠ .customCommand := by
  simp [ofWord?, Option.filter_eq_some_iff, ofName?_eq_some_iff]

/-- No name begins with another name and a blank. -/
theorem not_prefix_name (t u : CommandType) : ¬ (t.name.toList ++ [' ']) <+: u.name.toList := by
  have hAll : ∀ t ∈ all, ∀ u ∈ all, ¬ (t.name.toList ++ [' ']) <+: u.name.toList := by
    decide +kernel
  exact hAll t (mem_all t) u (mem_all u)

/-- A word behind a name makes no other name of it. -/
theorem ofWord?_behind_name (t : CommandType) (w : String) :
    ofWord? (t.name ++ " " ++ w) = none := by
  rw [Option.eq_none_iff_forall_not_mem]
  intro u hFound
  have hName := (ofWord?_eq_some_iff.1 hFound).1
  refine not_prefix_name t u ⟨w.toList, ?_⟩
  rw [← hName]
  simp

/-- The type that words spell is found, whatever comes behind them. -/
theorem resolve?_spelled {words : ArgList} {t : CommandType} (hType : t ≠ .customCommand)
    (hSpelled : Spells words t) (args : ArgList) :
    resolve? (words ++ args) = some (t, words.length) := by
  match words, hSpelled with
  | [a], hName =>
      have hWord : ofWord? a.capitals = some t := ofWord?_eq_some_iff.2 ⟨hName, hType⟩
      cases args with
      | nil => simp [resolve?, hWord]
      | cons b rest =>
          have hBoth : ofWord? (a.capitals ++ " " ++ b.capitals) = none := by
            rw [hName]
            exact ofWord?_behind_name t b.capitals
          simp [resolve?, hWord, hBoth]
  | [a, b], hName =>
      have hWord : ofWord? (a.capitals ++ " " ++ b.capitals) = some t :=
        ofWord?_eq_some_iff.2 ⟨hName, hType⟩
      simp [resolve?, hWord]

/-- A type that is found is spelled by the first words. -/
theorem spells_of_resolve? {words : ArgList} {t : CommandType} {n : Nat}
    (h : resolve? words = some (t, n)) :
    t ≠ .customCommand ∧ ∃ spelled args, words = spelled ++ args ∧ spelled.length = n ∧
      Spells spelled t := by
  have hFirst {a : Arg} {rest : ArgList} (hFound : (ofWord? a.capitals).map (·, 1) = some (t, n)) :
      t ≠ .customCommand ∧ ∃ spelled args, a :: rest = spelled ++ args ∧ spelled.length = n ∧
        Spells spelled t := by
    obtain ⟨u, hWord, hPair⟩ := Option.map_eq_some_iff.1 hFound
    cases hPair
    obtain ⟨hName, hType⟩ := ofWord?_eq_some_iff.1 hWord
    exact ⟨hType, [a], rest, rfl, rfl, hName⟩
  match words, h with
  | [a], hFound => exact hFirst hFound
  | a :: b :: rest, hFound =>
      rw [resolve?] at hFound
      split at hFound
      · rename_i u hBoth
        cases hFound
        obtain ⟨hName, hType⟩ := ofWord?_eq_some_iff.1 hBoth
        exact ⟨hType, [a, b], rest, rfl, rfl, hName⟩
      · exact hFirst hFound

end CommandType

theorem Command.request?_of_type {t : CommandType} (hType : t ≠ .customCommand) (args : ArgList) :
    Command.request? ⟨t, args⟩ = some (t, args.map Arg.toOctets) := by
  cases t <;> first | rfl | exact absurd rfl hType

/-- A command is carried out with a type that has a step. -/
theorem Command.request?_type {c : Command} {t : CommandType} {args : List Octets}
    (h : c.request? = some (t, args)) : t ≠ .customCommand := by
  obtain ⟨u, words⟩ := c
  by_cases hCustom : u = .customCommand
  · subst hCustom
    obtain ⟨⟨t', n⟩, hFound, hPair⟩ := Option.map_eq_some_iff.1 h
    cases hPair
    exact (CommandType.spells_of_resolve? hFound).1
  · rw [request?_of_type hCustom] at h
    cases h
    exact hCustom

namespace Store

/-- A command whose type is found is never called unknown, and it is refused for the number of its
arguments only if its type does not take them. -/
theorem run_unhandled {now : Float} {c : Command} {s : Store} {t : CommandType}
    {args : List Octets} (hFound : c.request? = some (t, args)) {r : Refusal}
    (hRun : (run now c s).1 = refuse r) (hUnhandled : r.isUnhandled = true) :
    r = .wrongArity t ∧ t.takes args = false := by
  rw [run_eq, hFound] at hRun
  exact runType_unhandled (Command.request?_type hFound) hRun hUnhandled

/-- A command that spells its type is the command of the type: it gets the same reply or failure,
and leaves the same store. Every type has its step: a command is refused for the number of its
arguments only if its type does not take them, and no command whose type is found is ever called
unknown. -/
theorem run_custom {t : CommandType} (hType : t ≠ .customCommand) {words : ArgList}
    (hSpelled : CommandType.Spells words t) (args : ArgList) (now : Float) (s : Store) :
    run now ⟨.customCommand, words ++ args⟩ s = run now ⟨t, args⟩ s ∧
      (∀ u, (run now ⟨t, args⟩ s).1 = refuse (.wrongArity u) →
        u = t ∧ t.takes (args.map Arg.toOctets) = false) ∧
      ∀ c : Command, c.request?.isSome = true →
        ∀ name, (run now c s).1 ≠ refuse (.unknownCommand name) := by
  have hFound : (⟨.customCommand, words ++ args⟩ : Command).request? =
      some (t, args.map Arg.toOctets) := by
    simp [Command.request?, CommandType.resolve?_spelled hType hSpelled]
  refine ⟨?_, ?_, ?_⟩
  · rw [run_eq, run_eq, hFound, Command.request?_of_type hType]
  · intro u hArity
    obtain ⟨hOwn, hTakes⟩ := run_unhandled (Command.request?_of_type hType args) hArity rfl
    cases hOwn
    exact ⟨rfl, hTakes⟩
  · intro c hSome name hUnknown
    obtain ⟨⟨u, words⟩, hRequest⟩ := Option.isSome_iff_exists.1 hSome
    have hNever := (run_unhandled hRequest hUnknown rfl).1
    cases hNever

/-- The argument of ECHO may itself be the name of a type. -/
theorem run_custom_echo :
    let s : Store := { databases := [.empty] }
    run 0.0 ⟨.customCommand, [.text "eCho", .text "ping"]⟩ s = run 0.0 ⟨.echo, [.text "ping"]⟩ s ∧
      (run 0.0 ⟨.echo, [.text "ping"]⟩ s).1 = .ok (.octets [112, 105, 110, 103]) := by
  intro s
  have hSpelled : CommandType.Spells [.text "eCho"] .echo := by decide
  exact ⟨(run_custom (by decide) hSpelled [.text "ping"] 0.0 s).1, rfl⟩

end Store

end BatchStore
