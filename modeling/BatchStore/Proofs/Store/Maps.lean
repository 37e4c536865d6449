import Mathlib.Data.Finmap
import Mathlib.Data.Finset.Card
import BatchStore.Proofs.Options.Said
import BatchStore.Proofs.Store.Collection
import BatchStore.Proofs.Table

/-!
# Hashes and sorted sets as finite maps

The commands of hashes are refined by a finite map from octet strings to octet strings, and the
commands of sorted sets, those that do not look at the ranking, by one to doubles. In the store
both are tables of values of any kind, in the order in which the keys came; `Stands` says that such
a table is a finite map whose values are wrapped up. The two kinds of command are one but for the
wrapping, so what is put in, taken out and read is shown once, on tables.

A key that is taken out counts if a value was found there. That this counts keys, an empty octet
string and a score of zero included, rests on `null` being no wrapped value.
-/

namespace BatchStore

/-! ## Finite maps -/

/-- A finite map from octet strings. -/
abbrev OctetsMap (β : Type) := Finmap fun _ : Octets => β

namespace OctetsMap

variable {β : Type}

/-- Puts pairs in one after another. -/
def putAll (m : OctetsMap β) (pairs : List (Octets × β)) : OctetsMap β :=
  pairs.foldl (fun m e => m.insert e.1 e.2) m

/-- Takes keys out one after another. -/
def removeAll (m : OctetsMap β) (ws : List Octets) : OctetsMap β :=
  ws.foldl (fun m w => m.erase w) m

theorem keys_insert (m : OctetsMap β) (w : Octets) (x : β) :
    (m.insert w x).keys = insert w m.keys := by
  ext k
  rw [Finmap.mem_keys, Finmap.mem_insert, Finset.mem_insert, Finmap.mem_keys]

/-- The keys after some pairs are those of the map and of the pairs. -/
theorem keys_putAll (m : OctetsMap β) (pairs : List (Octets × β)) :
    (m.putAll pairs).keys = m.keys ∪ (pairs.map (·.1)).toFinset := by
  induction pairs generalizing m with
  | nil => exact (Finset.union_empty _).symm
  | cons e rest ih =>
      show (putAll (m.insert e.1 e.2) rest).keys = _
      rw [ih, keys_insert, List.map_cons, List.toFinset_cons, Finset.insert_union,
        Finset.union_insert]

/-- The keys that are left are those that are not taken out. -/
theorem keys_removeAll (m : OctetsMap β) (ws : List Octets) :
    (m.removeAll ws).keys = m.keys \ ws.toFinset := by
  induction ws generalizing m with
  | nil => exact (Finset.sdiff_empty).symm
  | cons w rest ih =>
      show (removeAll (m.erase w) rest).keys = _
      rw [ih, Finmap.keys_erase, List.toFinset_cons]
      ext k
      simp only [Finset.mem_sdiff, Finset.mem_erase, Finset.mem_insert]
      tauto

/-- The map grows by the keys of the pairs that it has not had. -/
theorem card_putAll (m : OctetsMap β) (pairs : List (Octets × β)) :
    (m.putAll pairs).keys.card = m.keys.card + ((pairs.map (·.1)).toFinset \ m.keys).card := by
  rw [keys_putAll, Finset.union_comm, ← Finset.card_sdiff_add_card, Nat.add_comm]

/-- The map shrinks by the keys that it has had. -/
theorem card_removeAll (m : OctetsMap β) (ws : List Octets) :
    (m.removeAll ws).keys.card + (m.keys ∩ ws.toFinset).card = m.keys.card := by
  rw [keys_removeAll]
  exact Finset.card_sdiff_add_card_inter m.keys ws.toFinset

end OctetsMap

/-! ## Tables that are finite maps -/

/-- A table has the keys of a finite map, with their values wrapped up. -/
structure Stands {β : Type} (wrap : β → Datum) (m : OctetsMap β) (t : Table Datum Datum) :
    Prop where
  distinct : t.Distinct
  octets : ∀ d v, t.get? d = some v → ∃ w, d = .octets w
  lookup : ∀ w, t.get? (.octets w) = (m.lookup w).map wrap

namespace Stands

variable {β : Type} {wrap : β → Datum} {m : OctetsMap β} {t : Table Datum Datum}

/-- The empty table is the empty map. -/
theorem empty (wrap : β → Datum) : Stands wrap ∅ .empty where
  distinct := Table.distinct_empty
  octets := fun _ _ hNever => nomatch hNever
  lookup := fun w => by
    rw [Finmap.lookup_empty]
    rfl

/-- A pair put into the table is put into the map. -/
theorem put (h : Stands wrap m t) (w : Octets) (x : β) :
    Stands wrap (m.insert w x) (t.put (.octets w) (wrap x)) where
  distinct := Table.distinct_put h.distinct _ _
  octets := by
    intro d v hGet
    rw [Table.get?_put] at hGet
    split at hGet
    · rename_i hSame
      exact ⟨w, eq_of_beq hSame⟩
    · exact h.octets d v hGet
  lookup := by
    intro k
    rw [Table.get?_put]
    by_cases hSame : k = w
    · subst hSame
      rw [if_pos (beq_self_eq_true _), Finmap.lookup_insert]
      rfl
    · rw [if_neg (fun hEq => hSame (Datum.octets.inj (eq_of_beq hEq))),
        Finmap.lookup_insert_of_ne _ hSame]
      exact h.lookup k

/-- A key erased from the table is erased from the map. -/
theorem erase (h : Stands wrap m t) (w : Octets) :
    Stands wrap (m.erase w) (t.erase (.octets w)) where
  distinct := Table.distinct_erase h.distinct _
  octets := by
    intro d v hGet
    rw [Table.get?_erase] at hGet
    split at hGet
    · cases hGet
    · exact h.octets d v hGet
  lookup := by
    intro k
    rw [Table.get?_erase]
    by_cases hSame : k = w
    · subst hSame
      rw [if_pos (beq_self_eq_true _), Finmap.lookup_erase]
      rfl
    · rw [if_neg (fun hEq => hSame (Datum.octets.inj (eq_of_beq hEq))),
        Finmap.lookup_erase_ne hSame]
      exact h.lookup k

theorem putAll (h : Stands wrap m t) (pairs : List (Octets × β)) :
    Stands wrap (m.putAll pairs) (t.putAll (pairs.map fun e => (.octets e.1, wrap e.2))) := by
  induction pairs generalizing m t with
  | nil => exact h
  | cons e rest ih => exact ih (h.put e.1 e.2)

/-- The entries of the table are the pairs of the map, the values wrapped up. -/
theorem mem_entries (h : Stands wrap m t) (k v : Datum) :
    (k, v) ∈ t.entries ↔ ∃ w x, k = .octets w ∧ m.lookup w = some x ∧ v = wrap x := by
  rw [Table.mem_entries_iff h.distinct]
  constructor
  · intro hGet
    obtain ⟨w, rfl⟩ := h.octets k v hGet
    rw [h.lookup, Option.map_eq_some_iff] at hGet
    obtain ⟨x, hx, rfl⟩ := hGet
    exact ⟨w, x, rfl, hx, rfl⟩
  · rintro ⟨w, x, rfl, hx, rfl⟩
    rw [h.lookup, hx]
    rfl

/-- The table is as large as the map has keys. -/
theorem size_eq (h : Stands wrap m t) : t.size = m.keys.card := by
  have hKeys : t.keys.toFinset = m.keys.image .octets := by
    ext k
    rw [List.mem_toFinset, Finset.mem_image]
    constructor
    · intro hk
      obtain ⟨⟨d, v⟩, hEntry, rfl⟩ := List.mem_map.1 hk
      obtain ⟨w, x, rfl, hx, -⟩ := (h.mem_entries d v).1 hEntry
      exact ⟨w, Finmap.mem_keys.2 (Finmap.lookup_isSome.1 (hx ▸ rfl)), rfl⟩
    · rintro ⟨w, hw, rfl⟩
      obtain ⟨x, hx⟩ := Option.isSome_iff_exists.1 (Finmap.lookup_isSome.2 (Finmap.mem_keys.1 hw))
      exact List.mem_map.2 ⟨(.octets w, wrap x), (h.mem_entries _ _).2 ⟨w, x, rfl, hx, rfl⟩, rfl⟩
  have hLength : t.size = t.keys.length := (List.length_map _).symm
  rw [hLength, ← List.toFinset_card_of_nodup h.distinct, hKeys,
    Finset.card_image_of_injective _ fun _ _ hSame => Datum.octets.inj hSame]

/-- A key that is missing from the map reads as `null` in the table. -/
theorem getD_get? (h : Stands wrap m t) (w : Octets) :
    (t.get? (.octets w)).getD .null = ((m.lookup w).map wrap).getD .null := by
  rw [h.lookup]

theorem contains_eq (h : Stands wrap m t) (w : Octets) :
    t.contains (.octets w) = decide (w ∈ m) := by
  unfold Table.contains
  rw [h.lookup, Option.isSome_map, Bool.eq_iff_iff, decide_eq_true_iff]
  exact Finmap.lookup_isSome

/-- What is taken out, and how many keys were there to be taken out. -/
theorem removeAll (h : Stands wrap m t) (hWrap : ∀ x, wrap x ≠ .null) (ws : List Octets) :
    Stands wrap (m.removeAll ws) (Hashes.removeAll t ws).1 ∧
      (Hashes.removeAll t ws).2 = (m.keys ∩ ws.toFinset).card := by
  induction ws generalizing m t with
  | nil => exact ⟨h, by simp [Hashes.removeAll]⟩
  | cons w rest ih =>
      obtain ⟨hLeft, hCount⟩ := ih (h.erase w)
      have hFound : (t.get? (.octets w)).any (· != .null) = decide (w ∈ m) := by
        rw [h.lookup, Bool.eq_iff_iff, decide_eq_true_iff, ← Finmap.lookup_isSome]
        cases m.lookup w with
        | none => simp
        | some x => simp [hWrap x]
      refine ⟨hLeft, ?_⟩
      show (if (t.get? (.octets w)).any (· != .null) then
        (Hashes.removeAll (t.erase (.octets w)) rest).2 + 1
        else (Hashes.removeAll (t.erase (.octets w)) rest).2) = _
      rw [hFound, hCount, Finmap.keys_erase, List.toFinset_cons]
      by_cases hw : w ∈ m
      · have hSplit : m.keys ∩ insert w rest.toFinset =
            insert w (m.keys.erase w ∩ rest.toFinset) := by
          rw [Finset.inter_insert_of_mem (Finmap.mem_keys.2 hw)]
          ext k
          simp only [Finset.mem_insert, Finset.mem_inter, Finset.mem_erase]
          tauto
        rw [if_pos (decide_eq_true hw), hSplit, Finset.card_insert_of_notMem]
        simp
      · rw [if_neg (by simpa using hw),
          Finset.inter_insert_of_notMem (fun hk => hw (Finmap.mem_keys.1 hk)),
          Finset.erase_eq_of_notMem (fun hk => hw (Finmap.mem_keys.1 hk))]

end Stands

/-! ## The operations -/

/-- The operations of a finite map. -/
inductive MapOp (β : Type) where
  | put (pairs : List (Octets × β))
  | remove (keys : List Octets)
  | get (key : Octets)
  | has (key : Octets)
  | all
  | card

namespace MapOp

variable {β : Type}

def next : MapOp β → OctetsMap β → OctetsMap β
  | put pairs, m => m.putAll pairs
  | remove keys, m => m.removeAll keys
  | get _, m | has _, m | all, m | card, m => m

/-- The writes answer how many keys are new, or how many were there to be taken out. -/
def Answers (wrap : β → Datum) : MapOp β → OctetsMap β → Datum → Prop
  | put pairs, m, d => d = .int ((pairs.map (·.1)).toFinset \ m.keys).card
  | remove keys, m, d => d = .int (m.keys ∩ keys.toFinset).card
  | get key, m, d => d = ((m.lookup key).map wrap).getD .null
  | has key, m, d => d = .bool (decide (key ∈ m))
  | all, m, d => ∃ entries, d = .mapping entries ∧ (entries.map (·.1)).Nodup ∧
      ∀ k v, (k, v) ∈ entries ↔ ∃ w x, k = .octets w ∧ m.lookup w = some x ∧ v = wrap x
  | card, m, d => d = .int m.keys.card

def change : MapOp β → Datum → Int
  | put _, d => d.wholeOr 0
  | remove _, d => -d.wholeOr 0
  | get _, _ | has _, _ | all, _ | card, _ => 0

/-- The size changes by what the replies say: keys that are new, and keys that were there. -/
theorem counts {wrap : β → Datum} {op : MapOp β} {m : OctetsMap β} {d : Datum}
    (h : op.Answers wrap m d) :
    ((op.next m).keys.card : Int) = m.keys.card + op.change d := by
  cases op with
  | put pairs =>
      rw [show d = _ from h]
      show ((m.putAll pairs).keys.card : Int) =
        m.keys.card + ((pairs.map (·.1)).toFinset \ m.keys).card
      rw [OctetsMap.card_putAll, Int.natCast_add]
  | remove keys =>
      rw [show d = _ from h]
      have hSplit := OctetsMap.card_removeAll m keys
      show ((m.removeAll keys).keys.card : Int) =
        m.keys.card + -((m.keys ∩ keys.toFinset).card : Int)
      omega
  | get | has | all | card =>
      show (m.keys.card : Int) = m.keys.card + 0
      omega

end MapOp

/-- A kind of value that is a table, and how its values wrap those of a finite map. -/
structure MapKind (β : Type) where
  wrap : β → Datum
  wrap_ne_null : ∀ x, wrap x ≠ .null
  table? : Value → Option (Table Datum Datum)
  ofTable : Table Datum Datum → Value
  table_ofTable : ∀ t, table? (ofTable t) = some t
  isEmpty_ofTable : ∀ t, (ofTable t).isEmpty = t.isEmpty

namespace MapKind

variable {β : Type} (K : MapKind β)

/-- Values of the kind as finite maps, with commands that ask for the operations. -/
def finiteMap (Asks : MapOp β → CommandType → List Octets → Prop) :
    Collection (OctetsMap β) (MapOp β) (Table Datum Datum) where
  empty := ∅
  card := fun m => m.keys.card
  next := MapOp.next
  Answers := MapOp.Answers K.wrap
  change := MapOp.change
  Asks := Asks
  inside? := K.table?
  nothing := .empty
  Shows := Stands K.wrap

/-- Puts pairs into the table at a key and answers how many keys are new. -/
def putStep (pairs : List (Datum × Datum)) : KeyStep := fun seen => do
  let old := (← expect K.table? seen).getD .empty
  let new := old.putAll pairs
  return (.int (new.size - old.size), some (.replace seen (K.ofTable new)))

/-- Takes keys out of the table at a key and answers how many there were. -/
def removeStep (keys : List Octets) : KeyStep := fun seen => do
  match ← expect K.table? seen with
  | none => keep seen (.int 0)
  | some old =>
    let (new, n) := Hashes.removeAll old keys
    return (.int n, Entry.replaceUnlessEmpty seen (K.ofTable new))

/-- Reads the table at a key. -/
def readStep (reply : Table Datum Datum → Datum) : KeyStep := fun seen => do
  keep seen (reply ((← expect K.table? seen).getD .empty))

section Steps

variable {K} {Asks : MapOp β → CommandType → List Octets → Prop} {m : OctetsMap β}
  {seen : Option Entry}

/-- A missing key shows the empty map. -/
theorem nothing_shows (h : (K.finiteMap Asks).card m = 0) :
    (K.finiteMap Asks).Shows m (K.finiteMap Asks).nothing := by
  have hEmpty : m = ∅ := by
    apply Finmap.ext_lookup
    intro w
    rw [Finmap.lookup_empty, Finmap.lookup_eq_none, ← Finmap.mem_keys,
      Finset.card_eq_zero.1 h]
    exact Finset.notMem_empty w
  rw [hEmpty]
  exact Stands.empty K.wrap

/-- Putting pairs answers with the number of keys that are new, however often each is given. -/
theorem putStep_refines (hHeld : (K.finiteMap Asks).Held m seen) {pairs : List (Octets × β)}
    (hSome : pairs ≠ []) :
    ∃ e?, K.putStep (pairs.map fun e => (.octets e.1, K.wrap e.2)) seen =
        .ok (.int ((pairs.map (·.1)).toFinset \ m.keys).card, e?) ∧
      (K.finiteMap Asks).Held (m.putAll pairs) e? := by
  have hCard := OctetsMap.card_putAll m pairs
  have hKey : 0 < (m.putAll pairs).keys.card := by
    obtain ⟨e, he⟩ := List.exists_mem_of_ne_nil pairs hSome
    rw [OctetsMap.keys_putAll]
    exact Finset.card_pos.2 ⟨e.1, Finset.mem_union_right _
      (List.mem_toFinset.2 (List.mem_map.2 ⟨e, he, rfl⟩))⟩
  let put (t : Table Datum Datum) := t.putAll (pairs.map fun e => (.octets e.1, K.wrap e.2))
  refine hHeld.writes nothing_shows (fun t => .int ((put t).size - t.size))
    (fun t => K.ofTable (put t)) hKey fun t hStands => ?_
  have hOld : t.size = m.keys.card := hStands.size_eq
  have hNew : (put t).size = (m.putAll pairs).keys.card := (hStands.putAll pairs).size_eq
  exact ⟨congrArg Datum.int (by omega), _, K.table_ofTable _, hStands.putAll pairs⟩

/-- Removing keys answers with the number of those that were there, however often each is given. -/
theorem removeStep_refines (hHeld : (K.finiteMap Asks).Held m seen) (keys : List Octets) :
    ∃ e?, K.removeStep keys seen = .ok (.int (m.keys ∩ keys.toFinset).card, e?) ∧
      (K.finiteMap Asks).Held (m.removeAll keys) e? := by
  obtain ⟨t?, hExpect, hTable, hNone⟩ := hHeld.expect nothing_shows
  have hSplit := OctetsMap.card_removeAll m keys
  cases t? with
  | none =>
      obtain ⟨hZero, rfl⟩ := hNone rfl
      have hNothing : m.keys.card = 0 := hZero
      have hLeft : (K.finiteMap Asks).card (m.removeAll keys) = 0 := by
        show (m.removeAll keys).keys.card = 0
        omega
      rw [show (m.keys ∩ keys.toFinset).card = 0 by omega]
      exact ⟨none, rfl, Collection.held_none hLeft⟩
  | some t =>
      have hStands : Stands K.wrap m t := hTable
      obtain ⟨hLeft, hCount⟩ := hStands.removeAll K.wrap_ne_null keys
      refine ⟨Entry.replaceUnlessEmpty seen (K.ofTable (Hashes.removeAll t keys).1), ?_, ?_⟩
      · rw [← hCount]
        show (expect (K.finiteMap Asks).inside? seen >>= _) = _
        rw [hExpect]
        rfl
      · refine hHeld.replaceUnlessEmpty ?_ (K.table_ofTable _) hLeft
        show _ ↔ (m.removeAll keys).keys.card = 0
        rw [K.isEmpty_ofTable, ← hLeft.size_eq]
        exact List.isEmpty_iff_length_eq_zero

/-- A reading answers by the table at the key, and leaves it. -/
theorem readStep_refines (hHeld : (K.finiteMap Asks).Held m seen)
    (reply : Table Datum Datum → Datum) :
    ∃ t, Stands K.wrap m t ∧ K.readStep reply seen = .ok (reply t, seen) :=
  hHeld.reads nothing_shows reply

end Steps

end MapKind

/-! ## Hashes -/

/-- Words that are fields and values in turn go into those pairs. -/
theorem pairUp_words (pairs : List (Octets × Octets)) :
    pairUp (pairs.flatMap fun e => [e.1, e.2]) = some pairs := by
  induction pairs with
  | nil => rfl
  | cons e rest ih =>
      show (pairUp (rest.flatMap fun e => [e.1, e.2])).map (e :: ·) = _
      rw [ih]
      rfl

namespace Hashes

def mapKind : MapKind Octets where
  wrap := .octets
  wrap_ne_null := fun _ hNever => nomatch hNever
  table? := Value.hash?
  ofTable := .hash
  table_ofTable := fun _ => rfl
  isEmpty_ofTable := fun _ => rfl

def Asks : MapOp Octets → CommandType → List Octets → Prop
  | .put pairs, t, words => t = .hset ∧ words = pairs.flatMap (fun e => [e.1, e.2]) ∧ pairs ≠ []
  | .remove fields, t, words => t = .hdel ∧ words = fields ∧ fields ≠ []
  | .get field, t, words => t = .hget ∧ words = [field]
  | .has field, t, words => t = .hexists ∧ words = [field]
  | .all, t, words => t = .hgetall ∧ words = []
  | .card, t, words => t = .hlen ∧ words = []

/-- Hashes as finite maps. -/
def finiteMap : Collection (OctetsMap Octets) (MapOp Octets) (Table Datum Datum) :=
  mapKind.finiteMap Asks

/-- Each command of hashes runs as its operation of the finite map of octet strings. -/
theorem finiteMap_refined : finiteMap.Refined where
  start := rfl
  counts := MapOp.counts
  step := by
    rintro (pairs | fields | field | field | _ | _) t words hAsks now key
    · obtain ⟨rfl, rfl, hSome⟩ := hAsks
      refine ⟨mapKind.putStep (pairs.map fun e => (.octets e.1, .octets e.2)), ?_, ?_,
        fun hHeld => ?_⟩
      · have hPos := List.length_pos_of_ne_nil hSome
        have hWords : (pairs.flatMap fun e => [e.1, e.2]).length = pairs.length * 2 := by
          simp [List.length_flatMap]
        exact CommandType.admits_open rfl (by show 3 ≤ _; omega)
      · show hset now key _ = _
        unfold hset
        rw [pairUp_words]
        rfl
      · obtain ⟨e?, hStep, hNext⟩ := MapKind.putStep_refines hHeld hSome
        exact ⟨_, e?, hStep, rfl, hNext⟩
    · obtain ⟨rfl, rfl, hSome⟩ := hAsks
      refine ⟨mapKind.removeStep words, CommandType.admits_words rfl rfl hSome, rfl,
        fun hHeld => ?_⟩
      obtain ⟨e?, hStep, hNext⟩ := MapKind.removeStep_refines hHeld words
      exact ⟨_, e?, hStep, rfl, hNext⟩
    · obtain ⟨rfl, rfl⟩ := hAsks
      refine ⟨mapKind.readStep fun t => (t.get? (.octets field)).getD .null, rfl, rfl,
        fun hHeld => ?_⟩
      obtain ⟨t, hStands, hRead⟩ := MapKind.readStep_refines hHeld _
      exact ⟨_, _, hRead, hStands.getD_get? field, hHeld⟩
    · obtain ⟨rfl, rfl⟩ := hAsks
      refine ⟨mapKind.readStep fun t => .bool (t.contains (.octets field)), rfl, rfl,
        fun hHeld => ?_⟩
      obtain ⟨t, hStands, hRead⟩ := MapKind.readStep_refines hHeld _
      exact ⟨_, _, hRead, congrArg Datum.bool (hStands.contains_eq field), hHeld⟩
    · obtain ⟨rfl, rfl⟩ := hAsks
      refine ⟨mapKind.readStep fun t => .mapping t.entries, rfl, rfl, fun hHeld => ?_⟩
      obtain ⟨t, hStands, hRead⟩ := MapKind.readStep_refines hHeld _
      exact ⟨_, _, hRead, ⟨t.entries, rfl, hStands.distinct, hStands.mem_entries⟩, hHeld⟩
    · obtain ⟨rfl, rfl⟩ := hAsks
      refine ⟨mapKind.readStep fun t => .int t.size, rfl, rfl, fun hHeld => ?_⟩
      obtain ⟨t, hStands, hRead⟩ := MapKind.readStep_refines hHeld _
      exact ⟨_, _, hRead, congrArg (fun n : Nat => Datum.int n) hStands.size_eq, hHeld⟩

end Hashes

/-! ## Sorted sets -/

namespace SortedSets

/-- Scores and members, as words and as pairs. -/
inductive ScoreWords : List Octets → List (Octets × Float) → Prop
  | nil : ScoreWords [] []
  | cons {score : Octets} {x : Float} {words : List Octets} {pairs : List (Octets × Float)}
      (hScore : Number.real? score = some x) (member : Octets) (h : ScoreWords words pairs) :
      ScoreWords (score :: member :: words) ((member, x) :: pairs)

/-- Words that spell scores in front of their members are read as those scores of those members. -/
theorem ScoreWords.read {words : List Octets} {pairs : List (Octets × Float)}
    (h : ScoreWords words pairs) :
    words.length = 2 * pairs.length ∧ ∃ scored, pairUp words = some scored ∧
      readScores scored = .ok (pairs.map fun e => (.octets e.1, .real e.2)) := by
  induction h with
  | nil => exact ⟨rfl, [], rfl, rfl⟩
  | @cons score x words pairs hScore member h ih =>
      obtain ⟨hLength, scored, hPairs, hRead⟩ := ih
      refine ⟨?_, (score, member) :: scored, ?_, ?_⟩
      · rw [List.length_cons, List.length_cons, List.length_cons]
        omega
      · show (pairUp words).map _ = _
        rw [hPairs]
        rfl
      · show (readReal score >>= fun score => _) = _
        rw [readReal_of_real? hScore]
        show (readScores scored >>= fun rest => _) = _
        rw [hRead]
        rfl

def mapKind : MapKind Float where
  wrap := .real
  wrap_ne_null := fun _ hNever => nomatch hNever
  table? := Value.zset?
  ofTable := .zset
  table_ofTable := fun _ => rfl
  isEmpty_ofTable := fun _ => rfl

def Asks : MapOp Float → CommandType → List Octets → Prop
  | .put pairs, t, words => t = .zadd ∧ ScoreWords words pairs ∧ pairs ≠ []
  | .remove members, t, words => t = .zrem ∧ words = members ∧ members ≠ []
  | .get member, t, words => t = .zscore ∧ words = [member]
  | .card, t, words => t = .zcard ∧ words = []
  | .has _, _, _ | .all, _, _ => False

/-- Sorted sets as finite maps. -/
def finiteMap : Collection (OctetsMap Float) (MapOp Float) (Table Datum Datum) :=
  mapKind.finiteMap Asks

/-- ZADD is the putting of pairs that hashes have, but for the wrapping. -/
theorem zaddStep_eq (pairs : List (Datum × Datum)) : zaddStep pairs = mapKind.putStep pairs := by
  funext seen
  unfold zaddStep scoresAt MapKind.putStep
  show ((expect Value.zset? seen >>= _) >>= _) = (expect Value.zset? seen >>= _)
  cases expect Value.zset? seen <;> rfl

/-- A reading of scores is the reading that hashes have, but for the wrapping. -/
theorem readStep_eq (reply : Table Datum Datum → Datum) :
    (fun seen => do keep seen (reply (← scoresAt seen)) : KeyStep) = mapKind.readStep reply := by
  funext seen
  unfold scoresAt MapKind.readStep
  show ((expect Value.zset? seen >>= _) >>= _) = (expect Value.zset? seen >>= _)
  cases expect Value.zset? seen <;> rfl

/-- Each command of sorted sets that asks for no ranking runs as its operation of the finite map to
doubles. -/
theorem finiteMap_refined : finiteMap.Refined where
  start := rfl
  counts := MapOp.counts
  step := by
    rintro (pairs | members | member | _ | _ | _) t words hAsks now key
    · obtain ⟨rfl, hWords, hSome⟩ := hAsks
      obtain ⟨hLength, scored, hPairs, hRead⟩ := hWords.read
      have hPos := List.length_pos_of_ne_nil hSome
      refine ⟨mapKind.putStep (pairs.map fun e => (.octets e.1, .real e.2)),
        CommandType.admits_open rfl (by show 3 ≤ _; omega), ?_, fun hHeld => ?_⟩
      · show zadd now key words = _
        unfold zadd
        rw [hPairs, ← zaddStep_eq]
        show Store.given (readScores scored) _ = _
        rw [hRead]
        rfl
      · obtain ⟨e?, hStep, hNext⟩ := MapKind.putStep_refines hHeld hSome
        exact ⟨_, e?, hStep, rfl, hNext⟩
    · obtain ⟨rfl, rfl, hSome⟩ := hAsks
      refine ⟨mapKind.removeStep words, CommandType.admits_words rfl rfl hSome, rfl,
        fun hHeld => ?_⟩
      obtain ⟨e?, hStep, hNext⟩ := MapKind.removeStep_refines hHeld words
      exact ⟨_, e?, hStep, rfl, hNext⟩
    · obtain ⟨rfl, rfl⟩ := hAsks
      refine ⟨mapKind.readStep fun t => (t.get? (.octets member)).getD .null, rfl, ?_,
        fun hHeld => ?_⟩
      · rw [← readStep_eq]
        rfl
      · obtain ⟨t, hStands, hRead⟩ := MapKind.readStep_refines hHeld _
        exact ⟨_, _, hRead, hStands.getD_get? member, hHeld⟩
    · exact hAsks.elim
    · exact hAsks.elim
    · obtain ⟨rfl, rfl⟩ := hAsks
      refine ⟨mapKind.readStep fun t => .int t.size, rfl, ?_, fun hHeld => ?_⟩
      · rw [← readStep_eq]
        rfl
      · obtain ⟨t, hStands, hRead⟩ := MapKind.readStep_refines hHeld _
        exact ⟨_, _, hRead, congrArg (fun n : Nat => Datum.int n) hStands.size_eq, hHeld⟩

end SortedSets

end BatchStore
