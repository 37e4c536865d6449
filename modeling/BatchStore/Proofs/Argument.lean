import BatchStore.Proofs.Number.Digits

/-!
# What the builder collects

A caller may hand the builder a whole tree: lists within tuples within the keys of mappings. What
the builder makes of it goes by the `leaves` alone, the single values in the order in which they
stand. Each is written as one argument (`Arg.encode`). The first that cannot be, an `Unfit` one,
breaks the call off, and what was written before it stays.

`partsOf_eq` takes the tree away: the arguments in a value are those of the row of its leaves. It is
by induction on containers (`container_induction`), of which texts and octets are none, although
they can be gone through. The rest is about rows, which come through (`encode_ok`) or do not
(`encode_error`). One can also go by what stands in a container itself: `add_container` says that it
is added one value after another.
-/

namespace BatchStore

namespace Datum

/-! ## Leaves -/

mutual

/-- The single values in a value, from left to right; of a mapping those in its keys. -/
def leaves : Datum → List Datum
  | list vs | tuple vs | set vs => leavesOfRow vs
  | mapping ps => leavesOfKeys ps
  | v => [v]

/-- The single values in a row of values. -/
def leavesOfRow : List Datum → List Datum
  | [] => []
  | v :: vs => leaves v ++ leavesOfRow vs

/-- The single values in the keys of a mapping. -/
def leavesOfKeys : List (Datum × Datum) → List Datum
  | [] => []
  | (k, _) :: ps => leaves k ++ leavesOfKeys ps

end

theorem leavesOfRow_eq (vs : List Datum) : leavesOfRow vs = vs.flatMap leaves := by
  induction vs with
  | nil => rfl
  | cons v vs ih => rw [leavesOfRow, ih, List.flatMap_cons]

theorem leavesOfKeys_eq (ps : List (Datum × Datum)) :
    leavesOfKeys ps = (ps.map (·.1)).flatMap leaves := by
  induction ps with
  | nil => rfl
  | cons e ps ih => rw [leavesOfKeys, ih, List.map_cons, List.flatMap_cons]

/-- The leaves of a container are those of what stands in it. -/
theorem leaves_container {v : Datum} {vs : List Datum} (h : v.elements? = some vs) :
    v.leaves = vs.flatMap leaves := by
  cases v with
  | list | tuple | set =>
      cases h
      exact leavesOfRow_eq vs
  | mapping ps =>
      cases h
      exact leavesOfKeys_eq ps
  | _ => cases h

theorem leaves_single {v : Datum} (h : v.elements? = none) : v.leaves = [v] := by
  cases v with
  | list | tuple | set | mapping => cases h
  | _ => rfl

theorem sizeOf_element {v w : Datum} {vs : List Datum} (h : v.elements? = some vs) (hw : w ∈ vs) :
    sizeOf w < sizeOf v := by
  cases v with
  | list | tuple | set =>
      cases h
      have hLess := List.sizeOf_lt_of_mem hw
      simp only [list.sizeOf_spec, tuple.sizeOf_spec, set.sizeOf_spec]
      omega
  | mapping ps =>
      cases h
      obtain ⟨⟨k, x⟩, he, rfl⟩ := List.mem_map.1 hw
      have hLess := List.sizeOf_lt_of_mem he
      simp only [mapping.sizeOf_spec, Prod.mk.sizeOf_spec] at hLess ⊢
      omega
  | _ => cases h

/-- What holds of single values, and of a container if it holds of all that stands in it, holds of
every value. -/
@[elab_as_elim]
theorem container_induction {motive : Datum → Prop}
    (single : ∀ v, v.elements? = none → motive v)
    (container : ∀ v vs, v.elements? = some vs → (∀ w ∈ vs, motive w) → motive v) (v : Datum) :
    motive v :=
  match h : v.elements? with
  | none => single v h
  | some vs => container v vs h fun w _ => container_induction single container w
termination_by sizeOf v
decreasing_by exact sizeOf_element h ‹_›

/-- A leaf is no container. -/
theorem elements?_leaf {v l : Datum} (h : l ∈ v.leaves) : l.elements? = none := by
  induction v using container_induction with
  | single v hSingle =>
      rw [leaves_single hSingle, List.mem_singleton] at h
      rw [h, hSingle]
  | container v vs hContainer ih =>
      rw [leaves_container hContainer] at h
      obtain ⟨w, hw, hLeaf⟩ := List.mem_flatMap.1 h
      exact ih w hw hLeaf

/-- A single value that cannot be an argument: null, a truth value, a whole number of more than
`maxDigits` digits (4300), or a value of a type that has no place in a request. -/
def Unfit : Datum → Prop
  | null | bool _ | refusal _ | other _ => True
  | int n => Number.maxDigits < (Nat.toDigits 10 n.natAbs).length
  | _ => False

instance : DecidablePred Unfit
  | null | bool _ | refusal _ | other _ => isTrue trivial
  | int _ => inferInstanceAs (Decidable (_ < _))
  | text _ | octets _ | real _ | list _ | tuple _ | set _ | mapping _ => isFalse id

/-- Where there are unfit values, there is a first one. -/
theorem exists_first_unfit {ls : List Datum} (h : ∃ l ∈ ls, l.Unfit) :
    ∃ front bad back, ls = front ++ bad :: back ∧ (∀ l ∈ front, ¬ l.Unfit) ∧ bad.Unfit := by
  have hSome : (ls.find? fun l => l.Unfit).isSome = true := by simpa using h
  obtain ⟨bad, hFound⟩ := Option.isSome_iff_exists.1 hSome
  obtain ⟨hBad, front, back, hSplit, hFront⟩ := List.find?_eq_some_iff_append.1 hFound
  exact ⟨front, bad, back, hSplit, by simpa using hFront, by simpa using hBad⟩

end Datum

/-! ## Single values -/

/-- The argument that a single value is written as, or why it is none: texts and octets are
arguments as they stand, and a number is written as its text. -/
def Arg.encode (v : Datum) : Except Failure Arg :=
  match ofDatum? v with
  | some a => .ok a
  | none => (numberText v).map .text

theorem Arg.encode_short {n : Int} (h : Number.IsShort n) :
    encode (.int n) = .ok (.text (toString n)) := by
  show (wholeText n).map Arg.text = _
  rw [h.wholeText]
  rfl

theorem Arg.encode_long {n : Int} (h : ¬ Number.IsShort n) :
    encode (.int n) = .error (.fault .tooManyDigits) := by
  have hNone : Number.intText? n = none := if_neg h
  show (wholeText n).map Arg.text = _
  unfold wholeText
  rw [hNone]
  rfl

theorem Arg.encode_fit {l : Datum} (hSingle : l.elements? = none) (h : ¬ l.Unfit) :
    ∃ a, encode l = .ok a := by
  cases l with
  | text s => exact ⟨.text s, rfl⟩
  | octets w => exact ⟨.octets w, rfl⟩
  | int n => exact ⟨_, encode_short ((Number.isShort_iff n).2 h)⟩
  | real x => exact ⟨.text (realText x), rfl⟩
  | null | bool | refusal | other => exact absurd trivial h
  | list | tuple | set | mapping => cases hSingle

theorem Arg.encode_unfit {l : Datum} (h : l.Unfit) : ∃ e, encode l = .error e := by
  cases l with
  | null | bool | refusal | other => exact ⟨_, rfl⟩
  | int n => exact ⟨_, encode_long fun hShort => (Number.isShort_iff n).1 hShort h⟩
  | text | octets | real | list | tuple | set | mapping => cases h

namespace ArgList

/-! ## Rows of leaves -/

/-- The arguments that single values are written as, up to the first that is none. -/
def encode : List Datum → Added
  | [] => ⟨[], none⟩
  | l :: ls => (Added.ofLeaf (Arg.encode l)).followedBy fun _ => encode ls

theorem followedBy_assoc (a : Added) (b c : Unit → Added) :
    (a.followedBy b).followedBy c = a.followedBy fun _ => (b ()).followedBy c := by
  obtain ⟨args, _ | e⟩ := a
  · unfold Added.followedBy
    cases (b ()).failure? <;> simp
  · rfl

theorem encode_append (ls ms : List Datum) :
    encode (ls ++ ms) = (encode ls).followedBy fun _ => encode ms := by
  induction ls with
  | nil => rfl
  | cons l ls ih => rw [List.cons_append, encode, encode, followedBy_assoc, ih]

variable {ls : List Datum} {l : Datum}

/-- Values that all come through. -/
theorem encode_ok {as : ArgList} (h : ls.map Arg.encode = as.map .ok) : encode ls = ⟨as, none⟩ := by
  induction ls generalizing as with
  | nil =>
      cases as with
      | nil => rfl
      | cons a as => cases h
  | cons l ls ih =>
      cases as with
      | nil => cases h
      | cons a as =>
          obtain ⟨hFirst, hRest⟩ := List.cons.inj h
          rw [encode, hFirst, ih hRest]
          rfl

/-- Values of which the last does not come through. -/
theorem encode_error {as : ArgList} {e : Failure} (h : ls.map Arg.encode = as.map .ok)
    (hLast : Arg.encode l = .error e) (back : List Datum) :
    encode (ls ++ l :: back) = ⟨as, some e⟩ := by
  rw [encode_append, encode_ok h, encode, hLast]
  show Added.mk (as ++ []) (some e) = _
  rw [List.append_nil]

/-- Values that are fit come through. -/
theorem exists_encoded (hSingle : ∀ l ∈ ls, l.elements? = none) (hFit : ∀ l ∈ ls, ¬ l.Unfit) :
    ∃ as : ArgList, ls.map Arg.encode = as.map .ok := by
  induction ls with
  | nil => exact ⟨[], rfl⟩
  | cons l ls ih =>
      rw [List.forall_mem_cons] at hSingle hFit
      obtain ⟨a, hFirst⟩ := Arg.encode_fit hSingle.1 hFit.1
      obtain ⟨as, hRest⟩ := ih hSingle.2 hFit.2
      exact ⟨a :: as, by rw [List.map_cons, List.map_cons, hFirst, hRest]⟩

/-- What breaks a row off is the failure of one of its values. -/
theorem exists_of_failure {e : Failure} (h : (encode ls).failure? = some e) :
    ∃ l ∈ ls, Arg.encode l = .error e := by
  induction ls with
  | nil => cases h
  | cons l ls ih =>
      rw [encode] at h
      cases hFirst : Arg.encode l with
      | error e' =>
          rw [hFirst] at h
          cases h
          exact ⟨l, List.mem_cons_self, hFirst⟩
      | ok a =>
          rw [hFirst] at h
          obtain ⟨m, hm, hError⟩ := ih h
          exact ⟨m, List.mem_cons_of_mem _ hm, hError⟩

/-! ## Values -/

theorem partsOfKeys_eq (ps : List (Datum × Datum)) :
    partsOfKeys ps = partsOfRow (ps.map (·.1)) := by
  induction ps with
  | nil => rfl
  | cons e ps ih => rw [partsOfKeys, ih, List.map_cons, partsOfRow]

theorem partsOf_container {v : Datum} {vs : List Datum} (h : v.elements? = some vs) :
    partsOf v = partsOfRow vs := by
  cases v with
  | list | tuple | set =>
      cases h
      rfl
  | mapping ps =>
      cases h
      exact partsOfKeys_eq ps
  | _ => cases h

theorem partsOf_single {v : Datum} (h : v.elements? = none) :
    partsOf v = .ofLeaf (Arg.encode v) := by
  cases v with
  | list | tuple | set | mapping => cases h
  | _ => rfl

theorem partsOfRow_eq {vs : List Datum} (h : ∀ v ∈ vs, partsOf v = encode v.leaves) :
    partsOfRow vs = encode (vs.flatMap Datum.leaves) := by
  induction vs with
  | nil => rfl
  | cons v vs ih =>
      rw [List.forall_mem_cons] at h
      rw [partsOfRow, List.flatMap_cons, encode_append, h.1, ih h.2]

/-- The arguments in a value are those of its leaves. -/
theorem partsOf_eq (v : Datum) : partsOf v = encode v.leaves := by
  induction v using Datum.container_induction with
  | single v hSingle =>
      rw [partsOf_single hSingle, Datum.leaves_single hSingle, encode]
      cases Arg.encode v <;> rfl
  | container v vs hContainer ih =>
      rw [partsOf_container hContainer, Datum.leaves_container hContainer, partsOfRow_eq ih]

/-! ## Adding -/

/-- Appends values one after another, up to the first that is broken off. -/
def addEach (args : ArgList) : List Datum → Added
  | [] => ⟨args, none⟩
  | v :: vs =>
    let added := args.add v
    match added.failure? with
    | none => addEach added.args vs
    | some _ => added

variable (args : ArgList)

theorem addEach_eq (vs : List Datum) :
    args.addEach vs = ⟨args ++ (partsOfRow vs).args, (partsOfRow vs).failure?⟩ := by
  induction vs generalizing args with
  | nil =>
      show Added.mk args none = ⟨args ++ [], none⟩
      rw [List.append_nil]
  | cons v vs ih =>
      rw [addEach, partsOfRow, add]
      obtain ⟨parts, _ | e⟩ := partsOf v
      · show addEach (args ++ parts) vs = ⟨args ++ (parts ++ (partsOfRow vs).args), _⟩
        rw [ih, List.append_assoc]
        rfl
      · rfl

/-- To add a container is to add what stands in it, one value after another. -/
theorem add_container {v : Datum} {vs : List Datum} (h : v.elements? = some vs) :
    args.add v = args.addEach vs := by
  rw [addEach_eq, add, partsOf_container h]

theorem add_fit {v : Datum} (h : ∀ l ∈ v.leaves, ¬ l.Unfit) :
    ∃ as, v.leaves.map Arg.encode = as.map .ok ∧ args.add v = ⟨args ++ as, none⟩ := by
  obtain ⟨as, hEach⟩ := exists_encoded (fun l hl => Datum.elements?_leaf hl) h
  refine ⟨as, hEach, ?_⟩
  rw [add, partsOf_eq, encode_ok hEach]

theorem add_unfit {v bad : Datum} {front back : List Datum}
    (hSplit : v.leaves = front ++ bad :: back) (hFront : ∀ l ∈ front, ¬ l.Unfit)
    (hBad : bad.Unfit) :
    ∃ as e, front.map Arg.encode = as.map .ok ∧ Arg.encode bad = .error e ∧
      args.add v = ⟨args ++ as, some e⟩ := by
  have hSingle : ∀ l ∈ front, l.elements? = none := by
    intro l hl
    apply Datum.elements?_leaf (v := v)
    rw [hSplit]
    exact List.mem_append_left _ hl
  obtain ⟨as, hEach⟩ := exists_encoded hSingle hFront
  obtain ⟨e, hError⟩ := Arg.encode_unfit hBad
  refine ⟨as, e, hEach, hError, ?_⟩
  rw [add, partsOf_eq, hSplit, encode_error hEach hError]

/-- A value of any form and depth, added to any arguments.

* It is added without a failure if and only if none of its leaves is unfit.
* Then the arguments are those that were there, and behind them what each of its leaves is written
  as, from left to right.
* Else they are those that were there, and behind them what each leaf in front of the first unfit
  one is written as. The failure is that of the unfit leaf.
* To add a value under a condition that does not hold changes nothing.
* To add a list is to add what stands in it, one value after another. -/
theorem add_leaf_by_leaf (args : ArgList) (v : Datum) :
    ((args.add v).failure? = none ↔ ∀ l ∈ v.leaves, ¬ l.Unfit) ∧
    ((∀ l ∈ v.leaves, ¬ l.Unfit) →
      ∃ as, v.leaves.map Arg.encode = as.map .ok ∧ args.add v = ⟨args ++ as, none⟩) ∧
    (∀ front bad back, v.leaves = front ++ bad :: back → (∀ l ∈ front, ¬ l.Unfit) → bad.Unfit →
      ∃ as e, front.map Arg.encode = as.map .ok ∧ Arg.encode bad = .error e ∧
        args.add v = ⟨args ++ as, some e⟩) ∧
    args.addIf v false = ⟨args, none⟩ ∧
    ∀ vs, args.add (.list vs) = args.addEach vs := by
  refine ⟨⟨fun hNone l hl hUnfit => ?_, fun hFit => ?_⟩, add_fit args,
    fun front bad back => add_unfit args, rfl, fun vs => add_container args rfl⟩
  · obtain ⟨front, bad, back, hSplit, hFront, hBad⟩ := Datum.exists_first_unfit ⟨l, hl, hUnfit⟩
    obtain ⟨as, e, -, -, hAdded⟩ := add_unfit args hSplit hFront hBad
    rw [hAdded] at hNone
    cases hNone
  · obtain ⟨as, -, hAdded⟩ := add_fit args hFit
    rw [hAdded]

/-- A tree that is broken off in its middle, at the second key of a mapping within a tuple. -/
theorem add_leaf_by_leaf_broken :
    let v : Datum := .list [.int (-3), .tuple [.text "a", .mapping [(.octets [98], .null),
      (.bool true, .text "x")], .null], .real 1.5]
    ArgList.add [.text "k"] v =
      ⟨[.text "k", .text "-3", .text "a", .octets [98]], some (.argumentType "bool")⟩ := by
  intro v
  obtain ⟨-, -, hBroken, -⟩ := add_leaf_by_leaf [.text "k"] v
  obtain ⟨as, e, hEach, hError, hAdded⟩ := hBroken [.int (-3), .text "a", .octets [98]] (.bool true)
    [.null, .real 1.5] rfl (by decide) (by decide)
  have hNumber : Arg.encode (.int (-3)) = .ok (.text "-3") := Arg.encode_short (by decide +kernel)
  have hArgs : as = [.text "-3", .text "a", .octets [98]] := by
    rw [List.map_cons, hNumber] at hEach
    exact List.map_inj_right (fun _ _ => Except.ok.inj) |>.1 hEach.symm
  cases hError
  rw [hAdded, hArgs]
  rfl

end ArgList

end BatchStore
