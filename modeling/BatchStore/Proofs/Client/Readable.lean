import BatchStore.Proofs.Argument
import BatchStore.Proofs.Datum
import BatchStore.Proofs.Store.Restored

/-!
# Readable replies lose nothing

A client turns the octets in a reply into texts where they are texts, and leaves the others. Sets
and mappings are built anew from what came out, so two elements or two keys that came out alike
would fall together, and with them a value.

They cannot, for each of the two forms tells its octets: a text is read from no octets but those it
is written as (`Octets.ofText_of_decode?`), and no text is worth the same as octets. `Arg.handed` is
the form of some octets, and `toOctets_handed` says that the store sees these octets in it again.

Everything else is structure. `IsResponse` are the replies that can come, built up from single
values. `written` goes back over the structure with every text as its octets, and undoes the reading
(`written_readable`). So unlike replies are read unlike, and replies are worth the same after the
reading just as before (`same_readable`). `readable_loses_nothing` brings this together with the way
back into the store.
-/

namespace BatchStore

/-! ## Octets -/

/-- What becomes of octets that are made readable: the text they are, or just these octets. -/
def Arg.handed (w : Octets) : Arg :=
  match w.decode? with
  | .ok s => .text s
  | .error _ => .octets w

/-- The store sees the octets again. -/
@[simp] theorem Arg.toOctets_handed (w : Octets) : (handed w).toOctets = w := by
  unfold handed
  split
  · rename_i s hRead
    exact Octets.ofText_of_decode? hRead
  · rfl

theorem Arg.handed_inj {v w : Octets} : handed v = handed w ↔ v = w := by
  constructor
  · intro h
    rw [← toOctets_handed v, h, toOctets_handed]
  · rintro rfl
    rfl

theorem Arg.toDatum_inj {a b : Arg} : a.toDatum = b.toDatum ↔ a = b := by
  cases a <;> cases b <;> simp [toDatum]

namespace Datum

@[simp] theorem readable_octets (w : Octets) : (octets w).readable = (Arg.handed w).toDatum := by
  unfold readable Arg.handed
  cases w.decode? <;> rfl

/-- Arguments are worth the same only if they are one. -/
theorem same_toDatum (a b : Arg) : same a.toDatum b.toDatum = decide (a = b) := by
  have hSimple (a : Arg) : a.toDatum.isSimple = true := by cases a <;> rfl
  have hWorth (a : Arg) : a.toDatum.worth = a.toDatum := by cases a <;> rfl
  rw [same_simple (hSimple a) (hSimple b), hWorth, hWorth, Bool.eq_iff_iff, beq_iff_eq,
    decide_eq_true_iff, Arg.toDatum_inj]

/-- Octets are read alike only if they are the same. -/
theorem same_handed (v w : Octets) :
    same (Arg.handed v).toDatum (Arg.handed w).toDatum = same (octets v) (octets w) := by
  have hOctets : same (octets v) (octets w) = decide (Arg.octets v = Arg.octets w) :=
    same_toDatum (.octets v) (.octets w)
  rw [same_toDatum, hOctets, Bool.eq_iff_iff, decide_eq_true_iff, decide_eq_true_iff,
    Arg.handed_inj, Arg.octets.injEq]

/-- No two of different octets fall together. -/
theorem apart_handed {ws : List Octets} (h : ws.Nodup) :
    Apart (ws.map fun w => (Arg.handed w).toDatum) := by
  refine List.pairwise_map.2 (h.imp fun {v w} hNe => ?_)
  rw [same_toDatum, decide_eq_false_iff_not, Arg.handed_inj]
  exact Ne.symm hNe

/-! ## Containers -/

/-- A row is read place by place. -/
theorem readableRow_eq (xs : List Datum) : readableRow xs = xs.map readable := by
  induction xs with
  | nil => rfl
  | cons x xs ih => rw [readableRow, ih, List.map_cons]

theorem readablePairs_eq (ps : List (Datum × Datum)) :
    readablePairs ps = ps.map fun e => (e.1.readable, e.2.readable) := by
  induction ps with
  | nil => rfl
  | cons e ps ih => rw [readablePairs, ih, List.map_cons]

@[simp] theorem readable_list (xs : List Datum) : (list xs).readable = list (xs.map readable) := by
  rw [readable, readableRow_eq]

/-- A set of octets keeps each of its elements. -/
theorem readable_set {ws : List Octets} (h : ws.Nodup) :
    (set (ws.map octets)).readable = set (ws.map fun w => (Arg.handed w).toDatum) := by
  have hRow : readableRow (ws.map octets) = ws.map fun w => (Arg.handed w).toDatum := by
    rw [readableRow_eq, List.map_map]
    exact List.map_congr_left fun w _ => readable_octets w
  rw [readable, hRow, ofElements_apart (apart_handed h)]

/-- A mapping from octets keeps each of its keys, with its value. -/
theorem readable_mapping {ps : List (Octets × Datum)} (h : (ps.map Prod.fst).Nodup) :
    (mapping (ps.map fun e => (octets e.1, e.2))).readable =
      mapping (ps.map fun e => ((Arg.handed e.1).toDatum, e.2.readable)) := by
  have hPairs : readablePairs (ps.map fun e => (octets e.1, e.2)) =
      ps.map fun e => ((Arg.handed e.1).toDatum, e.2.readable) := by
    rw [readablePairs_eq, List.map_map]
    exact List.map_congr_left fun e _ => Prod.ext (readable_octets e.1) rfl
  have hApart :
      Apart ((ps.map fun e => ((Arg.handed e.1).toDatum, e.2.readable)).map Prod.fst) := by
    have hKeys := apart_handed h
    rwa [List.map_map] at hKeys ⊢
  rw [readable, hPairs, ofPairs_apart hApart]

/-! ## Replies -/

/-- The replies that can come: single values and refusals, lists of replies, sets of octets, and
mappings from octets to replies. No element and no key stands twice. -/
inductive IsResponse : Datum → Prop where
  | null : IsResponse null
  | bool (b : Bool) : IsResponse (bool b)
  | int (n : Int) : IsResponse (int n)
  | real (x : Float) : IsResponse (real x)
  | octets (w : Octets) : IsResponse (octets w)
  | refusal (r : Refusal) : IsResponse (refusal r)
  | list {xs : List Datum} (hItems : ∀ x ∈ xs, IsResponse x) : IsResponse (list xs)
  | set {ws : List Octets} (hApart : ws.Nodup) : IsResponse (set (ws.map Datum.octets))
  | mapping {ps : List (Octets × Datum)} (hApart : (ps.map Prod.fst).Nodup)
      (hValues : ∀ e ∈ ps, IsResponse e.2) :
      IsResponse (mapping (ps.map fun e => (Datum.octets e.1, e.2)))

mutual

/-- A value with its octets in the place of every text, at every depth. -/
def written : Datum → Datum
  | text s => octets (Octets.ofText s)
  | list xs => list (writtenRow xs)
  | tuple xs => tuple (writtenRow xs)
  | set xs => set (writtenRow xs)
  | mapping ps => mapping (writtenPairs ps)
  | d => d

/-- Values in a row with octets for texts. -/
def writtenRow : List Datum → List Datum
  | [] => []
  | x :: xs => x.written :: writtenRow xs

/-- Keys and values with octets for texts. -/
def writtenPairs : List (Datum × Datum) → List (Datum × Datum)
  | [] => []
  | (k, v) :: ps => (k.written, v.written) :: writtenPairs ps

end

theorem writtenRow_eq (xs : List Datum) : writtenRow xs = xs.map written := by
  induction xs with
  | nil => rfl
  | cons x xs ih => rw [writtenRow, ih, List.map_cons]

theorem writtenPairs_eq (ps : List (Datum × Datum)) :
    writtenPairs ps = ps.map fun e => (e.1.written, e.2.written) := by
  induction ps with
  | nil => rfl
  | cons e ps ih => rw [writtenPairs, ih, List.map_cons]

@[simp] theorem written_toDatum (a : Arg) : a.toDatum.written = octets a.toOctets := by
  cases a <;> rfl

/-- With octets for texts, a reply that was read is the reply that came. -/
theorem written_readable {v : Datum} (h : v.IsResponse) : v.readable.written = v := by
  induction h with
  | null | bool b | int n | real x | refusal r => rfl
  | octets w => rw [readable_octets, written_toDatum, Arg.toOctets_handed]
  | list hItems ih =>
      rename_i xs
      rw [readable_list, written, writtenRow_eq, List.map_map]
      exact congrArg list ((List.map_congr_left fun x hx => ih x hx).trans (List.map_id' xs))
  | set hApart =>
      rename_i ws
      rw [readable_set hApart, written, writtenRow_eq, List.map_map]
      refine congrArg set (List.map_congr_left fun w _ => ?_)
      rw [Function.comp_apply, written_toDatum, Arg.toOctets_handed]
  | mapping hApart hValues ih =>
      rename_i ps
      rw [readable_mapping hApart, written, writtenPairs_eq, List.map_map]
      refine congrArg mapping (List.map_congr_left fun e he => ?_)
      rw [Function.comp_apply, written_toDatum, Arg.toOctets_handed, ih e he]

/-- Replies that are read alike are one. -/
theorem readable_inj {v w : Datum} (hv : v.IsResponse) (hw : w.IsResponse)
    (h : v.readable = w.readable) : v = w := by
  rw [← written_readable hv, h, written_readable hw]

/-! ## The worth of replies -/

theorem sameAmong_eq_all (others xs : List Datum) :
    sameAmong others xs = xs.all fun a => others.any fun b => same a b := by
  induction xs with
  | nil => rw [sameAmong, List.all_nil]
  | cons a xs ih => rw [sameAmong, ih, List.all_cons]

theorem samePairsAmong_eq_all (others ps : List (Datum × Datum)) :
    samePairsAmong others ps =
      ps.all fun p => others.any fun e => same p.1 e.1 && same p.2 e.2 := by
  induction ps with
  | nil => rw [samePairsAmong, List.all_nil]
  | cons e ps ih => rw [samePairsAmong, ih, List.all_cons]

/-- Rows are worth the same after a reading that keeps the worth of each place. -/
theorem sameRow_readable {xs ys : List Datum}
    (h : ∀ x ∈ xs, ∀ y ∈ ys, same x.readable y.readable = same x y) :
    sameRow (xs.map readable) (ys.map readable) = sameRow xs ys := by
  induction xs generalizing ys with
  | nil => cases ys <;> simp [sameRow]
  | cons x xs ih =>
      cases ys with
      | nil => simp [sameRow]
      | cons y ys =>
          have hRest : sameRow (xs.map readable) (ys.map readable) = sameRow xs ys :=
            ih fun x hx y hy => h x (List.mem_cons_of_mem _ hx) y (List.mem_cons_of_mem _ hy)
          rw [List.map_cons, List.map_cons, sameRow, sameRow, hRest,
            h x List.mem_cons_self y List.mem_cons_self]

/-- Values of two of these families are never worth the same. -/
inductive Family where
  | null
  | number
  | word
  | list
  | tuple
  | set
  | mapping
  | refusal
  | other
deriving DecidableEq

/-- The family of a value. A reading makes texts of octets, but numbers of nothing else. -/
def family : Datum → Family
  | null => .null
  | bool _ | int _ | real _ => .number
  | text _ | octets _ => .word
  | list _ => .list
  | tuple _ => .tuple
  | set _ => .set
  | mapping _ => .mapping
  | refusal _ => .refusal
  | other _ => .other

theorem same_of_family_ne {v w : Datum} (h : v.family ≠ w.family) : same v w = false := by
  cases v <;> cases w <;> first
    | exact absurd rfl h
    | simp [same, whole?]

@[simp] theorem family_readable (v : Datum) : v.readable.family = v.family := by
  cases v with
  | octets w =>
      rw [readable_octets]
      cases Arg.handed w <;> rfl
  | _ => rfl

theorem same_readable_of_family_ne {v w : Datum} (h : v.family ≠ w.family) :
    same v.readable w.readable = same v w := by
  rw [same_of_family_ne h, same_of_family_ne (by rwa [family_readable, family_readable])]

/-- Two replies are worth the same after they were read if they were before, and only then. -/
theorem same_readable {v w : Datum} (hv : v.IsResponse) (hw : w.IsResponse) :
    same v.readable w.readable = same v w := by
  induction hv generalizing w with
  | null | bool b | int n | real x | refusal r =>
      cases hw <;> first | rfl | exact same_readable_of_family_ne (by simp [family])
  | octets v =>
      cases hw with
      | octets w => rw [readable_octets, readable_octets, same_handed]
      | _ => exact same_readable_of_family_ne (by simp [family])
  | list hItems ih =>
      cases hw with
      | list hItems' =>
          rw [readable_list, readable_list, same, same]
          exact sameRow_readable fun x hx y hy => ih x hx (hItems' y hy)
      | _ => exact same_readable_of_family_ne (by simp [family])
  | set hApart =>
      cases hw with
      | set hApart' =>
          rw [readable_set hApart, readable_set hApart', same, same, sameAmong_eq_all,
            sameAmong_eq_all]
          simp only [List.length_map, List.all_map, List.any_map, Function.comp_def, same_handed]
      | _ => exact same_readable_of_family_ne (by simp [family])
  | mapping hApart hValues ih =>
      cases hw with
      | mapping hApart' hValues' =>
          rw [readable_mapping hApart, readable_mapping hApart', same, same,
            samePairsAmong_eq_all, samePairsAmong_eq_all]
          simp only [List.length_map, List.all_map, List.any_map, Function.comp_def, same_handed]
          refine congrArg _ ?_
          rw [Bool.eq_iff_iff, List.all_eq_true, List.all_eq_true]
          refine forall₂_congr fun p hp => ?_
          rw [List.any_eq_true, List.any_eq_true]
          refine exists_congr fun q => and_congr_right fun hq => ?_
          rw [ih p hp (hValues' q hq)]
      | _ => exact same_readable_of_family_ne (by simp [family])

end Datum

/-! ## Back into the store -/

/-- What a value is taken apart into where a call takes arguments, as a collection of them or one by
one. -/
def Datum.PassesAs (v : Datum) (args : ArgList) : Prop :=
  Arg.checkAll v = .ok args ∧ ArgList.partsOf v = ⟨args, none⟩

namespace Arg

theorem checkEach_toDatum (args : ArgList) : checkEach (args.map toDatum) = .ok args := by
  induction args with
  | nil => rfl
  | cons a args ih =>
      rw [List.map_cons, checkEach, check_toDatum, ih]
      rfl

/-- An argument passes as itself. -/
theorem passesAs_toDatum (a : Arg) : a.toDatum.PassesAs [a] := by
  constructor
  · rw [checkAll, ofDatum?_toDatum]
  · cases a <;> rfl

end Arg

namespace ArgList

theorem partsOf_toDatum (a : Arg) : partsOf a.toDatum = ⟨[a], none⟩ := by
  cases a <;> rfl

theorem partsOfRow_toDatum (args : ArgList) : partsOfRow (args.map Arg.toDatum) = ⟨args, none⟩ := by
  induction args with
  | nil => rfl
  | cons a args ih =>
      rw [List.map_cons, partsOfRow, partsOf_toDatum, ih]
      rfl

theorem partsOfKeys_toDatum {ps : List (Datum × Datum)} {args : ArgList}
    (h : ps.map Prod.fst = args.map Arg.toDatum) : partsOfKeys ps = ⟨args, none⟩ := by
  rw [partsOfKeys_eq, h, partsOfRow_toDatum]

end ArgList

namespace Datum

/-- Octets that were handed over readable pass, one by one or as all that a reply holds. -/
theorem readable_passesAs {v : Datum} (hv : v.IsResponse) {ws : List Octets}
    (hElements : v.elements? = some (ws.map octets)) :
    v.readable.PassesAs (ws.map Arg.handed) := by
  have hHanded :
      ws.map (fun w => (Arg.handed w).toDatum) = (ws.map Arg.handed).map Arg.toDatum := by
    rw [List.map_map]
    rfl
  cases hv with
  | list hItems =>
      cases hElements
      have hRow : (ws.map octets).map readable = (ws.map Arg.handed).map Arg.toDatum := by
        rw [← hHanded, List.map_map]
        exact List.map_congr_left fun w _ => readable_octets w
      rw [readable_list, hRow]
      exact ⟨Arg.checkEach_toDatum _, ArgList.partsOfRow_toDatum _⟩
  | set hApart =>
      have hSame := List.map_inj_right (fun _ _ => octets.inj) |>.1 (Option.some.inj hElements)
      subst hSame
      rw [readable_set hApart, hHanded]
      exact ⟨Arg.checkEach_toDatum _, ArgList.partsOfRow_toDatum _⟩
  | mapping hApart hValues =>
      rename_i ps
      have hKeys : ps.map Prod.fst = ws := by
        have hOctets := Option.some.inj hElements
        rw [List.map_map] at hOctets
        refine List.map_inj_right (fun _ _ => octets.inj) |>.1 (Eq.trans ?_ hOctets)
        rw [List.map_map]
        rfl
      subst hKeys
      have hHeld : (ps.map fun e => ((Arg.handed e.1).toDatum, e.2.readable)).map Prod.fst =
          ((ps.map Prod.fst).map Arg.handed).map Arg.toDatum := by
        rw [← hHanded, List.map_map, List.map_map]
        rfl
      rw [readable_mapping hApart]
      refine ⟨?_, ArgList.partsOfKeys_toDatum hHeld⟩
      show Arg.checkEach _ = _
      rw [hHeld]
      exact Arg.checkEach_toDatum _
  | _ => cases hElements

end Datum

/-- A command does what its arguments say in octets. -/
theorem Store.run_of_octets {now : Float} {t : CommandType} {args words : ArgList}
    (h : args.map Arg.toOctets = words.map Arg.toOctets) (s : Store) :
    run now ⟨t, args⟩ s = run now ⟨t, words⟩ s := by
  unfold run
  dsimp only
  rw [h]

/-- What a client makes readable, it does not lose.

* A list keeps its items in order, a set each of its elements, and a mapping each of its keys in
  order and the value at it, so at every depth.
* With octets in the place of every text, what was read is again the reply that came.
* Replies that are read alike are one, and those that are read as worth the same were so before.
* Octets that were read pass wherever a call takes an argument, alone or with all that stand in a
  reply, and whatever the command is, the store does what it does with the octets that came. -/
theorem Datum.readable_loses_nothing :
    (∀ xs : List Datum, (list xs).readable = list (xs.map readable)) ∧
      (∀ ws : List Octets, ws.Nodup →
        (set (ws.map octets)).readable = set (ws.map fun w => (octets w).readable) ∧
          Apart (ws.map fun w => (octets w).readable)) ∧
      (∀ ps : List (Octets × Datum), (ps.map Prod.fst).Nodup →
        (mapping (ps.map fun e => (octets e.1, e.2))).readable =
            mapping (ps.map fun e => ((octets e.1).readable, e.2.readable)) ∧
          Apart (ps.map fun e => (octets e.1).readable)) ∧
      (∀ v : Datum, v.IsResponse → v.readable.written = v) ∧
      (∀ v w : Datum, v.IsResponse → w.IsResponse →
        (v.readable = w.readable → v = w) ∧ same v.readable w.readable = same v w) ∧
      (∀ w : Octets, Arg.check (octets w).readable = .ok (Arg.handed w) ∧
        (octets w).readable.PassesAs [Arg.handed w]) ∧
      (∀ (v : Datum) (ws : List Octets), v.IsResponse → v.elements? = some (ws.map octets) →
        v.readable.PassesAs (ws.map Arg.handed)) ∧
      ∀ (now : Float) (t : CommandType) (before after : ArgList) (ws : List Octets) (s : Store),
        Store.run now ⟨t, before ++ ws.map Arg.handed ++ after⟩ s =
          Store.run now ⟨t, before ++ ws.map Arg.octets ++ after⟩ s := by
  refine ⟨readable_list, ?_, ?_, fun v hv => written_readable hv,
    fun v w hv hw => ⟨readable_inj hv hw, same_readable hv hw⟩, ?_,
    fun v ws hv hElements => readable_passesAs hv hElements, ?_⟩
  · intro ws hApart
    simp only [readable_octets]
    exact ⟨readable_set hApart, apart_handed hApart⟩
  · intro ps hApart
    have hKeys := apart_handed hApart
    rw [List.map_map] at hKeys
    simp only [readable_octets]
    exact ⟨readable_mapping hApart, hKeys⟩
  · intro w
    rw [readable_octets]
    exact ⟨Arg.check_toDatum _, Arg.passesAs_toDatum _⟩
  · intro now t before after ws s
    refine Store.run_of_octets ?_ s
    have hBack : (ws.map Arg.handed).map Arg.toOctets = (ws.map Arg.octets).map Arg.toOctets := by
      rw [List.map_map, List.map_map]
      exact List.map_congr_left fun w _ => Arg.toOctets_handed w
    simp only [List.map_append, hBack]

/-- Keys and elements of which some are texts and some are not. -/
theorem Datum.readable_loses_nothing_mixed :
    let row := set [octets [97], octets [255]]
    let reply := mapping [(octets [195, 164], row), (octets [195], list [null, octets [98]])]
    row.readable = set [text "a", octets [255]] ∧
      reply.readable = mapping [(text "ä", row.readable), (octets [195], list [null, text "b"])] ∧
      reply.readable.written = reply ∧
      same reply.readable row.readable = same reply row ∧
      row.readable.PassesAs [.text "a", .octets [255]] := by
  intro row reply
  have hRow : row.IsResponse := @IsResponse.set [[97], [255]] (by decide)
  have hReply : reply.IsResponse := by
    refine @IsResponse.mapping [([195, 164], row), ([195], list [null, octets [98]])] (by decide) ?_
    simp only [List.forall_mem_cons, List.not_mem_nil, false_implies, implies_true, and_true]
    refine ⟨hRow, .list ?_⟩
    simp only [List.forall_mem_cons, List.not_mem_nil, false_implies, implies_true, and_true]
    exact ⟨.null, .octets _⟩
  obtain ⟨-, hSet, hMapping, hWritten, hSame, -, hPasses, -⟩ := readable_loses_nothing
  refine ⟨?_, ?_, hWritten reply hReply, (hSame reply row hReply hRow).2, ?_⟩
  · exact (hSet [[97], [255]] (by decide)).1.trans (by decide +kernel)
  · exact (hMapping [([195, 164], row), ([195], list [null, octets [98]])] (by decide)).1.trans
      (by decide +kernel)
  · have hHanded : [[97], [255]].map Arg.handed = [.text "a", .octets [255]] := by decide +kernel
    exact hHanded ▸ hPasses row [[97], [255]] hRow rfl

end BatchStore
