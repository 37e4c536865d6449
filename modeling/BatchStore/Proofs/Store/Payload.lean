import BatchStore.Proofs.Store.View
import BatchStore.Store.Payload

/-!
# What a payload brings back

A payload is octets that anybody may have written, and the value it stands for goes into the
store as it was read. It is clean none the less (`clean_of_valueOf?`), because a refusal has no
form of its own in a payload: whatever `readBody` reads is no refusal, and what it holds was
read by `readBody` as well (`readShape_of_readBody`).
-/

namespace BatchStore

namespace Payload

/-- A value that was read out of a payload. -/
def IsRead (d : Datum) : Prop := ∃ depth w rest, readBody depth w = some (d, rest)

/-- No refusal, and a container only of values that were read as well. -/
def ReadShape : Datum → Prop
  | .list xs | .tuple xs | .set xs => ∀ x ∈ xs, IsRead x
  | .mapping ps => ∀ e ∈ ps, IsRead e.2
  | .refusal _ => False
  | _ => True

/-- What holds of each value that is read holds of all that are read one after another. -/
theorem mem_readMany {α : Type} {one : Octets → Option (α × Octets)} {good : α → Prop}
    (hOne : ∀ w x rest, one w = some (x, rest) → good x) {n : Nat} {w rest : Octets} {xs : List α}
    (h : readMany one n w = some (xs, rest)) : ∀ x ∈ xs, good x := by
  induction n generalizing w xs with
  | zero =>
      cases h
      exact fun _ hMem => nomatch hMem
  | succ n ih =>
      obtain ⟨⟨x, w'⟩, hFirst, hOthers⟩ := Option.bind_eq_some_iff.1 h
      obtain ⟨⟨others, w''⟩, hRest, hPair⟩ := Option.bind_eq_some_iff.1 hOthers
      cases hPair
      intro y hy
      rcases List.mem_cons.1 hy with rfl | hOther
      · exact hOne w y w' hFirst
      · exact ih hRest y hOther

/-- What holds of each value that is read holds of all that are counted and read. -/
theorem mem_readCounted {α : Type} {one : Octets → Option (α × Octets)} {good : α → Prop}
    (hOne : ∀ w x rest, one w = some (x, rest) → good x) {w rest : Octets} {xs : List α}
    (h : readCounted one w = some (xs, rest)) : ∀ x ∈ xs, good x := by
  obtain ⟨⟨n, w'⟩, -, hMany⟩ := Option.bind_eq_some_iff.1 h
  exact mem_readMany hOne hMany

/-- The parts of a pair are read one behind the other. -/
theorem readPair_parts {α : Type} {one : Octets → Option (α × Octets)} {w rest : Octets}
    {e : α × α} (h : readPair one w = some (e, rest)) :
    ∃ w', one w = some (e.1, w') ∧ one w' = some (e.2, rest) := by
  obtain ⟨⟨k, w'⟩, hKey, hOthers⟩ := Option.bind_eq_some_iff.1 h
  obtain ⟨⟨v, w''⟩, hValue, hPair⟩ := Option.bind_eq_some_iff.1 hOthers
  cases hPair
  exact ⟨w', hKey, hValue⟩

/-- What is read of a body is of a shape that payloads have. The cases follow the tag: constants,
numbers and octets, text, rows, mappings, and what is no tag. -/
theorem readShape_of_readBody {depth : Nat} {w rest : Octets} {d : Datum}
    (h : readBody depth w = some (d, rest)) : ReadShape d := by
  unfold readBody at h
  split at h
  · cases h
  · cases h
  · rename_i depth tag w
    have hOne (w : Octets) (x : Datum) (rest : Octets)
        (hRead : readBody depth w = some (x, rest)) : IsRead x := ⟨depth, w, rest, hRead⟩
    have hPair (w : Octets) (e : Datum × Datum) (rest : Octets)
        (hRead : readPair (readBody depth) w = some (e, rest)) : IsRead e.2 := by
      obtain ⟨w', -, hValue⟩ := readPair_parts hRead
      exact hOne w' e.2 rest hValue
    split at h
    case h_1 | h_2 | h_3 =>
      cases h
      trivial
    case h_4 | h_5 | h_6 | h_8 =>
      obtain ⟨⟨t, w'⟩, -, hDone⟩ := Option.bind_eq_some_iff.1 h
      cases hDone
      trivial
    case h_7 =>
      obtain ⟨⟨t, w'⟩, -, hText⟩ := Option.bind_eq_some_iff.1 h
      dsimp only at hText
      split at hText <;> cases hText
      trivial
    case h_9 | h_10 | h_11 =>
      obtain ⟨⟨xs, w'⟩, hMany, hDone⟩ := Option.bind_eq_some_iff.1 h
      cases hDone
      exact mem_readCounted hOne hMany
    case h_12 =>
      obtain ⟨⟨ps, w'⟩, hMany, hDone⟩ := Option.bind_eq_some_iff.1 h
      cases hDone
      exact mem_readCounted hPair hMany
    case h_13 => cases h

theorem IsRead.shape {d : Datum} (h : IsRead d) : ReadShape d := by
  obtain ⟨depth, w, rest, hRead⟩ := h
  exact readShape_of_readBody hRead

/-- A value that is read is no refusal. -/
theorem IsRead.isRefusal {d : Datum} (h : IsRead d) : d.isRefusal = false := by
  have hShape := h.shape
  cases d with
  | refusal r => exact hShape.elim
  | _ => rfl

/-- What a payload is read as has the shape of a read value. -/
theorem readShape_of_read? {payload : Octets} {d : Datum} (h : read? payload = some d) :
    ReadShape d := by
  unfold read? at h
  split at h
  · split at h
    · obtain ⟨⟨d', rest⟩, hRead, rfl⟩ := Option.map_eq_some_iff.1 h
      exact readShape_of_readBody hRead
    case h_2 | h_3 | h_4 =>
      cases h
      trivial
    case h_5 => cases h
  · cases h

/-- A row of read values stands for a clean value, if it does for any. -/
theorem clean_of_valueOfRow? {row : List Datum} {v : Value} (hRow : ∀ x ∈ row, IsRead x)
    (h : valueOfRow? row = some v) : v.Clean := by
  unfold valueOfRow? at h
  split at h
  · rename_i kind content
    have hContent := (hRow content (by simp)).shape
    split at h
    · split at h <;> cases h
      exact Value.clean_string _
    · rename_i ps
      have hValues : ∀ d ∈ ps.map (·.2), d.isRefusal = false := by
        intro d hd
        obtain ⟨e, he, rfl⟩ := List.mem_map.1 hd
        exact (hContent e he).isRefusal
      split at h
      · cases h
        exact hValues
      · split at h <;> cases h
        exact hValues
    · split at h <;> cases h
      exact fun d hd => (hContent d hd).isRefusal
    · split at h <;> cases h
      exact Value.clean_set _
    · cases h
  · cases h

/-- Every value that a payload stands for is clean. -/
theorem clean_of_valueOf? {payload : Octets} {v : Value}
    (h : (read? payload).bind valueOf? = some v) : v.Clean := by
  obtain ⟨d, hRead, hValue⟩ := Option.bind_eq_some_iff.1 h
  have hShape := readShape_of_read? hRead
  cases d <;> first | exact clean_of_valueOfRow? hShape hValue | cases hValue

end Payload

end BatchStore
