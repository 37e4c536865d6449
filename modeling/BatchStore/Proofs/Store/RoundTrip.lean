import BatchStore.Proofs.Number.Bits
import BatchStore.Proofs.Octets.Utf8
import BatchStore.Proofs.Store.Orderly

/-!
# A payload brings back what was written

`write` puts a value into octets, one part behind the other, and `read?` takes the octets apart
again by their tags and counts. What comes back is `kept` of the value: the value itself, but for
refusals and values of a foreign type, which are written as nothing.

The reader of a value says how deep it goes, and its readers of rows are built from that of one
value at the next depth. So the proof goes along the value, with rows beside it
(`readBody_writeBody`); a value is no deeper than its octets are many, and that is the depth
`read?` begins with.

Of a stored value whose parts are of the types that commands write, everything is kept. So the form
is faithful (`faithful_form`), and a payload of a faithful form brings back the value itself
(`Form.Faithful.restored`).
-/

namespace BatchStore

namespace Payload

mutual

/-- What a payload keeps of a value. -/
def kept : Datum → Datum
  | .list xs => .list (keptRow xs)
  | .tuple xs => .tuple (keptRow xs)
  | .set xs => .set (keptRow xs)
  | .mapping ps => .mapping (keptPairs ps)
  | .refusal _ | .other _ => .null
  | d => d

/-- What a payload keeps of a row of values. -/
def keptRow : List Datum → List Datum
  | [] => []
  | x :: xs => kept x :: keptRow xs

/-- What a payload keeps of keys and values. -/
def keptPairs : List (Datum × Datum) → List (Datum × Datum)
  | [] => []
  | (k, v) :: ps => (kept k, kept v) :: keptPairs ps

end

/-! ## Numbers and octets -/

/-- Octets that are written with their length in front are read back. -/
theorem readOctets_write (w rest : Octets) :
    readOctets (writeNat w.length ++ w ++ rest) = some (w, rest) := by
  unfold readOctets
  rw [List.append_assoc, readNat_writeNat]
  exact takeOctets_append w rest

/-- Elements that are written with their number in front are read back, if one after another they
are. -/
theorem readCounted_write {α : Type} {one : Octets → Option (α × Octets)} {n : Nat}
    {body rest : Octets} {xs : List α} (h : readMany one n (body ++ rest) = some (xs, rest)) :
    readCounted one (writeNat n ++ body ++ rest) = some (xs, rest) := by
  unfold readCounted
  rw [List.append_assoc, readNat_writeNat]
  exact h

/-- A pair is read back if its parts are. -/
theorem readPair_write {one : Octets → Option (Datum × Octets)} {k v : Datum}
    {key value rest : Octets} (hKey : one (key ++ (value ++ rest)) = some (k, value ++ rest))
    (hValue : one (value ++ rest) = some (v, rest)) :
    readPair one (key ++ value ++ rest) = some ((k, v), rest) := by
  unfold readPair
  rw [List.append_assoc, hKey]
  show (one (value ++ rest)).bind _ = _
  rw [hValue]
  rfl

/-- Elements are read back one after another if the first one is and the others are. -/
theorem readMany_cons {α : Type} {one : Octets → Option (α × Octets)} {n : Nat} {x : α}
    {xs : List α} {first others rest : Octets}
    (hFirst : one (first ++ (others ++ rest)) = some (x, others ++ rest))
    (hOthers : readMany one n (others ++ rest) = some (xs, rest)) :
    readMany one (n + 1) (first ++ others ++ rest) = some (x :: xs, rest) := by
  unfold readMany
  rw [List.append_assoc, hFirst]
  show (readMany one n (others ++ rest)).bind _ = _
  rw [hOthers]
  rfl

/-! ## Values -/

/-- The parts take fewer octets than the whole, which has a tag and a count in front of them. -/
theorem row_le {tag : UInt8} {count row : Octets} {depth : Nat}
    (h : (tag :: (count ++ row)).length ≤ depth + 1) : row.length ≤ depth := by
  rw [List.length_cons, List.length_append] at h
  omega

/-- There is at least a tag. -/
theorem writeBody_ne_nil (d : Datum) : writeBody d ≠ [] := by
  cases d with
  | bool b => cases b <;> exact List.cons_ne_nil _ _
  | _ => exact List.cons_ne_nil _ _

mutual

/-- A value that is written is read back as what is kept of it, whatever follows and with any depth
that is enough. -/
theorem readBody_writeBody : ∀ (d : Datum) {depth : Nat} (rest : Octets),
    (writeBody d).length ≤ depth → readBody depth (writeBody d ++ rest) = some (kept d, rest)
  | d, 0, rest, h => absurd (List.length_eq_zero_iff.1 (Nat.le_zero.1 h)) (writeBody_ne_nil d)
  | .null, depth + 1, rest, _ => rfl
  | .bool false, depth + 1, rest, _ => rfl
  | .bool true, depth + 1, rest, _ => rfl
  | .int n, depth + 1, rest, _ => by
    by_cases hNegative : n < 0
    · have hBack : -(n.natAbs : Int) = n := by omega
      have hTag : writeBody (.int n) = 131 :: writeNat n.natAbs := by
        rw [writeBody, if_pos hNegative]
      rw [hTag]
      show (readNat (writeNat n.natAbs ++ rest)).bind _ = _
      rw [readNat_writeNat]
      show some (Datum.int (-(n.natAbs : Int)), rest) = _
      rw [hBack]
      rfl
    · have hBack : (n.natAbs : Int) = n := by omega
      have hTag : writeBody (.int n) = 132 :: writeNat n.natAbs := by
        rw [writeBody, if_neg hNegative]
      rw [hTag]
      show (readNat (writeNat n.natAbs ++ rest)).bind _ = _
      rw [readNat_writeNat]
      show some (Datum.int (n.natAbs : Int), rest) = _
      rw [hBack]
      rfl
  | .real x, depth + 1, rest, _ => by
    show (readNat (writeNat x.toBits.toNat ++ rest)).bind _ = _
    rw [readNat_writeNat]
    show some (Datum.real (Float.ofBits (UInt64.ofNat x.toBits.toNat)), rest) = _
    rw [UInt64.ofNat_toNat, Number.ofBits_toBits]
    rfl
  | .text s, depth + 1, rest, _ => by
    show (readOctets (writeNat _ ++ Octets.ofText s ++ rest)).bind _ = _
    rw [readOctets_write]
    show (match (Octets.ofText s).decode? with
      | .ok s => some (Datum.text s, rest)
      | .error _ => none) = _
    rw [Octets.decode?_ofText]
    rfl
  | .octets w, depth + 1, rest, _ => by
    show (readOctets (writeNat w.length ++ w ++ rest)).bind _ = _
    rw [readOctets_write]
    rfl
  | .list xs, depth + 1, rest, h => by
    have hRow := readMany_writeRow xs rest (row_le h)
    show (readCounted _ (writeNat xs.length ++ writeRow xs ++ rest)).bind _ = _
    rw [readCounted_write hRow]
    rfl
  | .tuple xs, depth + 1, rest, h => by
    have hRow := readMany_writeRow xs rest (row_le h)
    show (readCounted _ (writeNat xs.length ++ writeRow xs ++ rest)).bind _ = _
    rw [readCounted_write hRow]
    rfl
  | .set xs, depth + 1, rest, h => by
    have hRow := readMany_writeRow xs rest (row_le h)
    show (readCounted _ (writeNat xs.length ++ writeRow xs ++ rest)).bind _ = _
    rw [readCounted_write hRow]
    rfl
  | .mapping ps, depth + 1, rest, h => by
    have hPairs := readMany_writePairs ps rest (row_le h)
    show (readCounted _ (writeNat ps.length ++ writePairs ps ++ rest)).bind _ = _
    rw [readCounted_write hPairs]
    rfl
  | .refusal _, depth + 1, rest, _ => rfl
  | .other _, depth + 1, rest, _ => rfl

theorem readMany_writeRow : ∀ (xs : List Datum) {depth : Nat} (rest : Octets),
    (writeRow xs).length ≤ depth →
    readMany (readBody depth) xs.length (writeRow xs ++ rest) = some (keptRow xs, rest)
  | [], _, rest, _ => rfl
  | x :: xs, depth, rest, h => by
    rw [writeRow, List.length_append] at h
    have hFirst := readBody_writeBody x (writeRow xs ++ rest) (by omega : _ ≤ depth)
    have hOthers := readMany_writeRow xs rest (by omega : _ ≤ depth)
    exact readMany_cons hFirst hOthers

theorem readMany_writePairs : ∀ (ps : List (Datum × Datum)) {depth : Nat} (rest : Octets),
    (writePairs ps).length ≤ depth →
    readMany (readPair (readBody depth)) ps.length (writePairs ps ++ rest) =
      some (keptPairs ps, rest)
  | [], _, rest, _ => rfl
  | (k, v) :: ps, depth, rest, h => by
    rw [writePairs, List.length_append, List.length_append] at h
    have hKey := readBody_writeBody k (writeBody v ++ (writePairs ps ++ rest))
      (by omega : _ ≤ depth)
    have hValue := readBody_writeBody v (writePairs ps ++ rest) (by omega : _ ≤ depth)
    have hOthers := readMany_writePairs ps rest (by omega : _ ≤ depth)
    exact readMany_cons (readPair_write hKey hValue) hOthers

end

/-- A payload brings back what it keeps of a value. -/
theorem read?_write (d : Datum) : read? (write d) = some (kept d) := by
  have hBody := readBody_writeBody d [] (Nat.le_refl _)
  rw [List.append_nil] at hBody
  show (readBody (writeBody d).length (writeBody d)).map (·.1) = _
  rw [hBody]
  rfl

/-! ## Stored values -/

/-- A row of values that are kept is kept. -/
theorem keptRow_eq {xs : List Datum} (h : ∀ d ∈ xs, kept d = d) : keptRow xs = xs := by
  induction xs with
  | nil => rfl
  | cons x xs ih =>
      rw [keptRow, h x List.mem_cons_self, ih fun d hd => h d (List.mem_cons_of_mem _ hd)]

theorem keptPairs_eq {ps : List (Datum × Datum)} (h : ∀ e ∈ ps, kept e.1 = e.1 ∧ kept e.2 = e.2) :
    keptPairs ps = ps := by
  induction ps with
  | nil => rfl
  | cons e ps ih =>
      obtain ⟨hKey, hValue⟩ := h e List.mem_cons_self
      rw [keptPairs, ih fun e he => h e (List.mem_cons_of_mem _ he), hKey, hValue]

theorem kept_octets {d : Datum} (h : d.IsOctets) : kept d = d := by
  obtain ⟨w, rfl⟩ := h
  rfl

theorem kept_real {d : Datum} (h : d.IsReal) : kept d = d := by
  obtain ⟨x, rfl⟩ := h
  rfl

/-- Everything of such a value is kept. -/
theorem kept_contentOf {v : Value} (h : v.Typed) : kept (contentOf v) = contentOf v := by
  have hContent : kept v.toDatum = v.toDatum := by
    cases v with
    | string w => rfl
    | list items => exact congrArg Datum.list (keptRow_eq fun d hd => kept_octets (h d hd))
    | set members => exact congrArg Datum.set (keptRow_eq fun d hd => kept_octets (h d hd))
    | hash fields =>
        have hPairs := keptPairs_eq fun e he => (h e he).imp kept_octets kept_octets
        exact congrArg Datum.mapping hPairs
    | zset scores =>
        have hPairs := keptPairs_eq fun e he => (h e he).imp kept_octets kept_real
        exact congrArg Datum.mapping hPairs
  show Datum.tuple [.text v.kindName, kept v.toDatum] = _
  rw [hContent]
  rfl

/-- Kind and content say which value it is. -/
theorem valueOf?_contentOf (v : Value) : valueOf? (contentOf v) = some v := by
  cases v <;> rfl

/-- A form brings back the content of stored values as it was written. -/
def Form.Faithful (form : Form) : Prop :=
  ∀ v : Value, v.Typed → form.read? (form.write (contentOf v)) = some (contentOf v)

/-- The form of the store is faithful: it brings well-formed values back. -/
theorem faithful_form : form.Faithful := by
  intro v hTyped
  show read? (write (contentOf v)) = _
  rw [read?_write, kept_contentOf hTyped]

/-- What is restored from the payload of such a value is the value. -/
theorem Form.Faithful.restored {form : Form} (hForm : form.Faithful) {v : Value} (h : v.Typed) :
    (form.read? (form.write (contentOf v))).bind valueOf? = some v := by
  rw [hForm v h]
  exact valueOf?_contentOf v

/-- What is dumped of a well-formed value is sane to restore. -/
theorem sane_dump {v : Value} (h : v.WellFormed) : Sane (write (contentOf v)) := by
  intro restored hRestored
  have hBack : (read? (write (contentOf v))).bind valueOf? = some v :=
    faithful_form.restored h.typed
  rw [hBack] at hRestored
  cases hRestored
  exact h

end Payload

end BatchStore
