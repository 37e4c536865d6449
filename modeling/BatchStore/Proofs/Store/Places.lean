import BatchStore.Proofs.Number.Nearest
import BatchStore.Proofs.Number.Order
import BatchStore.Proofs.Store.Deeds

/-!
# Places put into sorted sets

GEOADD reads flags, then places, three words each, and only then looks at its key. The places are
written one after another into the table whose members they are compared with, so a member that is
named twice is new at its first place and old at its second.

One place changes a table at its member or not at all (`Flags.get?_put`), and it counts just if the
table grows, or is altered (`Flags.size_put`, `Flags.altered_put`). From that a row of places is
told by induction: what each member is left with under each guard, and how the count goes with the
table (`written_putAll`). `geoadd_by_flags` has the whole way, from a request to what shows at the
key.

The flags are read in a row, and a guard takes the place of the one before it. So NX is in force
only if no XX comes behind it (`geoadd_last_guard`).
-/

namespace BatchStore

namespace Places

/-! ## Flags -/

/-- A flag of GEOADD, in any letter case. -/
def IsFlag (w : Octets) : Prop := Keyword.ofOctets? w ∈ [some .nx, some .xx, some .ch]

instance (w : Octets) : Decidable (IsFlag w) := inferInstanceAs (Decidable (_ ∈ _))

/-- The guard that a flag asks for. -/
def guard? (w : Octets) : Option Guard :=
  match Keyword.ofOctets? w with
  | some .nx => some .onlyNew
  | some .xx => some .onlyOld
  | _ => none

/-- A number is no flag. -/
theorem not_isFlag_of_real? {w : Octets} {x : Float} (h : Number.real? w = some x) :
    ¬ IsFlag w := by
  intro hFlag
  have hUpper : w.upper = [78, 88] ∨ w.upper = [88, 88] ∨ w.upper = [67, 72] := by
    simp only [IsFlag, List.mem_cons, List.not_mem_nil, or_false] at hFlag
    exact hFlag.imp Keyword.upper_of_ofOctets? (Or.imp Keyword.upper_of_ofOctets?
      Keyword.upper_of_ofOctets?)
  have hNever : Number.real? w = none := by
    rcases hUpper with hWord | hWord | hWord <;>
      rcases Octets.eq_of_upper_two hWord with rfl | rfl | rfl | rfl <;> decide +kernel
  rw [hNever] at h
  cases h

namespace Flags

/-- What flags ask for behind others: of the guards the last one is in force. -/
def behind (flags : Flags) (ws : List Octets) : Flags where
  guard := (ws.filterMap guard?).getLast?.getD flags.guard
  changed := flags.changed || ws.any (Keyword.ofOctets? · = some .ch)

/-- What a row of flags asks for. -/
def inForce (ws : List Octets) : Flags := behind {} ws

/-- The flags end where the words begin that are none. -/
theorem read_append (flags : Flags) {ws rest : List Octets} (hFlags : ∀ w ∈ ws, IsFlag w)
    (hRest : ∀ w ∈ rest.head?, ¬ IsFlag w) :
    read flags (ws ++ rest) = (flags.behind ws, rest) := by
  induction ws generalizing flags with
  | nil =>
      cases rest with
      | nil => simp [read, behind]
      | cons w rest =>
          have hNot := hRest w rfl
          unfold IsFlag at hNot
          simp only [List.nil_append, read]
          split <;> simp_all [behind]
  | cons w ws ih =>
      have hFlag := hFlags w List.mem_cons_self
      have hOthers := fun v hv => hFlags v (List.mem_cons_of_mem _ hv)
      simp only [IsFlag, List.mem_cons, List.not_mem_nil, or_false] at hFlag
      rcases hFlag with hWord | hWord | hWord <;>
        simp [read, hWord, ih _ hOthers, behind, guard?, List.getLast?_cons]

end Flags

/-! ## Places -/

/-- A place as the words of a request give it: two numbers and a member. -/
structure Point where
  longitudeWord : Octets
  latitudeWord : Octets
  member : Octets
  longitude : Float
  latitude : Float
  longitude_read : Number.real? longitudeWord = some longitude
  latitude_read : Number.real? latitudeWord = some latitude

namespace Point

variable (p : Point)

/-- The three words of a place. -/
def words : List Octets := [p.longitudeWord, p.latitudeWord, p.member]

def triple : Octets × Octets × Octets := (p.longitudeWord, p.latitudeWord, p.member)

def OnMap : Prop :=
  -maxLongitude ≤ p.longitude ∧ p.longitude ≤ maxLongitude ∧
    -maxLatitude ≤ p.latitude ∧ p.latitude ≤ maxLatitude

instance : Decidable p.OnMap := inferInstanceAs (Decidable (_ ∧ _ ∧ _ ∧ _))

/-- The number of the cell of a place, as a score. -/
def score : Float :=
  Float.ofNat (interleave cellBits (cell ((p.longitude + maxLongitude) / 360.0))
    (cell ((p.latitude + maxLatitude) / 170.10225756)))

/-- What is written for a place. -/
def entry : Datum × Datum := (.octets p.member, .real p.score)

variable {p}

theorem score?_onMap (h : p.OnMap) : score? p.longitude p.latitude = .ok p.score := by
  obtain ⟨hWest, hEast, hSouth, hNorth⟩ := h
  unfold score?
  rw [decide_eq_true hWest, decide_eq_true hEast, decide_eq_true hSouth, decide_eq_true hNorth]
  rfl

theorem score?_offMap (h : ¬ p.OnMap) :
    score? p.longitude p.latitude = refuse (.invalidPoint p.longitude p.latitude) := by
  unfold score?
  refine if_neg fun hWithin => h ?_
  simpa [OnMap, and_assoc] using hWithin

end Point

theorem triples_words (points : List Point) : triples (points.flatMap Point.words) =
    some (points.map Point.triple) := by
  induction points with
  | nil => rfl
  | cons p rest ih =>
      show (triples (rest.flatMap Point.words)).map _ = _
      rw [ih]
      rfl

theorem readPlaces_cons (p : Point) (rest : List (Octets × Octets × Octets)) :
    readPlaces (p.triple :: rest) = (do
      let score ← score? p.longitude p.latitude
      return (.octets p.member, .real score) :: (← readPlaces rest)) := by
  show (do
    let longitude ← readReal p.longitudeWord
    let latitude ← readReal p.latitudeWord
    let score ← score? longitude latitude
    return (Datum.octets p.member, Datum.real score) :: (← readPlaces rest)) = _
  rw [readReal_of_real? p.longitude_read, readReal_of_real? p.latitude_read]
  rfl

theorem readPlaces_onMap {points : List Point} (h : ∀ p ∈ points, p.OnMap) :
    readPlaces (points.map Point.triple) =
      .ok (points.map Point.entry) := by
  induction points with
  | nil => rfl
  | cons p rest ih =>
      rw [List.map_cons, readPlaces_cons, Point.score?_onMap (h p List.mem_cons_self),
        ih fun q hq => h q (List.mem_cons_of_mem _ hq)]
      rfl

/-- The first place off the map is refused. -/
theorem readPlaces_offMap {points : List Point} (h : ∃ p ∈ points, ¬ p.OnMap) :
    ∃ p ∈ points, ¬ p.OnMap ∧
      readPlaces (points.map Point.triple) =
        refuse (.invalidPoint p.longitude p.latitude) := by
  induction points with
  | nil => simp at h
  | cons p rest ih =>
      rw [List.map_cons, readPlaces_cons]
      by_cases hFirst : p.OnMap
      · have hRest : ∃ q ∈ rest, ¬ q.OnMap := by simpa [hFirst] using h
        obtain ⟨q, hq, hOff, hRead⟩ := ih hRest
        rw [Point.score?_onMap hFirst, hRead]
        exact ⟨q, List.mem_cons_of_mem _ hq, hOff, rfl⟩
      · rw [Point.score?_offMap hFirst]
        exact ⟨p, List.mem_cons_self, hFirst, rfl⟩

/-- The bits of two coordinates in turn are a number of twice as many bits. -/
theorem interleave_lt (bits column row : Nat) : interleave bits column row < 4 ^ bits := by
  induction bits generalizing column row with
  | zero => exact Nat.one_pos
  | succ bits ih =>
      have hUpper := ih (column / 2) (row / 2)
      rw [interleave, Nat.pow_succ]
      omega

/-- The score of a place is a number, so it is the same as itself. -/
theorem Point.same_score (p : Point) : Datum.same (.real p.score) (.real p.score) = true := by
  have hNumber : p.score.isNaN = false := by
    apply Number.isNaN_ofNat
    apply Number.lt_limit (k := 0) _ (by norm_num)
    rw [zpow_zero, mul_one]
    exact_mod_cast interleave_lt cellBits _ _
  obtain ⟨rank, hRank⟩ := Number.exists_rank hNumber
  rw [Datum.same]
  exact (Number.beq_iff_rank _ _).2 ⟨rank, hRank, hRank⟩

/-! ## One place in a table -/

/-- Writes one place if the flags let it. -/
def Flags.put (flags : Flags) (scores : Table Datum Datum) (e : Datum × Datum) :
    Table Datum Datum :=
  if flags.allows (scores.get? e.1) then scores.put e.1 e.2 else scores

/-- Whether the write of a place counts. -/
def Flags.countsFor (flags : Flags) (scores : Table Datum Datum) (e : Datum × Datum) : Bool :=
  flags.allows (scores.get? e.1) && flags.counts (scores.get? e.1) e.2

/-- Whether a member is new in the second of two tables, or has another score there. -/
def altered (before after : Table Datum Datum) (member : Datum) : Bool :=
  match before.get? member, after.get? member with
  | none, some _ => true
  | some old, some new => old != new && !Datum.same old new
  | _, none => false

/-- How many of some places, taken in turn, alter a table at their member. -/
def Flags.alterations (flags : Flags) (scores : Table Datum Datum) : List (Datum × Datum) → Nat
  | [] => 0
  | e :: rest =>
    flags.alterations (flags.put scores e) rest +
      (altered scores (flags.put scores e) e.1).toNat

namespace Flags

variable (flags : Flags) (scores : Table Datum Datum) (e : Datum × Datum)

theorem get?_put (m : Datum) : (flags.put scores e).get? m =
    if m = e.1 ∧ flags.allows (scores.get? m) then some e.2 else scores.get? m := by
  unfold put
  by_cases hMember : m = e.1
  · subst hMember
    split <;> simp_all [Table.get?_put]
  · split <;> simp [Table.get?_put, hMember]

theorem write_cons (rest : List (Datum × Datum)) :
    flags.write scores (e :: rest) = ((flags.write (flags.put scores e) rest).1,
      (flags.write (flags.put scores e) rest).2 + (flags.countsFor scores e).toNat) := by
  rw [write, put, countsFor]
  cases flags.allows (scores.get? e.1) with
  | true => cases flags.counts (scores.get? e.1) e.2 <;> rfl
  | false => rfl

/-- A member that a place does not name is left as it is. -/
theorem get?_put_of_ne {m : Datum} (h : m ≠ e.1) :
    (flags.put scores e).get? m = scores.get? m := by
  rw [get?_put, if_neg fun hBoth => h hBoth.1]

variable {flags} {scores} {e}

theorem get?_put_onlyNew (hGuard : flags.guard = .onlyNew) {m old : Datum}
    (h : scores.get? m = some old) : (flags.put scores e).get? m = some old := by
  rw [get?_put, h, if_neg]
  simp [allows, hGuard]

theorem contains_put_onlyOld (hGuard : flags.guard = .onlyOld) {m : Datum} :
    (flags.put scores e).contains m = scores.contains m := by
  unfold Table.contains
  rw [get?_put]
  split
  · rename_i hBoth
    simpa [allows, hGuard] using hBoth.2.symm
  · rfl

theorem contains_put {m : Datum} (h : scores.contains m = true) :
    (flags.put scores e).contains m = true := by
  unfold Table.contains
  rw [get?_put]
  split
  · rfl
  · exact h

/-- Without the flag for changes, a write that counts is one that makes the table grow. -/
theorem size_put (hPlain : flags.changed = false) :
    (flags.put scores e).size = scores.size + (flags.countsFor scores e).toNat := by
  have hCounts : flags.counts (scores.get? e.1) e.2 = (scores.get? e.1).isNone := by
    unfold counts
    cases scores.get? e.1 <;> simp [hPlain]
  unfold put countsFor
  cases flags.allows (scores.get? e.1) with
  | true =>
      rw [if_pos rfl, Table.size_put, hCounts]
      rfl
  | false => rfl

/-- With it, a write that counts is one that alters the table. -/
theorem altered_put (hChanged : flags.changed = true) (hSelf : Datum.same e.2 e.2 = true) :
    altered scores (flags.put scores e) e.1 = flags.countsFor scores e := by
  have hAfter := get?_put flags scores e e.1
  unfold altered countsFor
  cases hAllows : flags.allows (scores.get? e.1) with
  | true =>
      rw [hAllows] at hAfter
      rw [hAfter, if_pos ⟨rfl, rfl⟩]
      unfold counts
      cases scores.get? e.1 with
      | none => rfl
      | some old =>
          by_cases hSame : old = e.2
          · simp [hSame, hSelf]
          · simp [hSame, hChanged]
  | false =>
      rw [hAllows] at hAfter
      rw [hAfter, if_neg fun hBoth => Bool.false_ne_true hBoth.2]
      cases scores.get? e.1 <;> simp

end Flags

/-! ## A row of places -/

/-- Writes places one after another, as far as the flags let it. -/
def Flags.putAll (flags : Flags) (scores : Table Datum Datum) (places : List (Datum × Datum)) :
    Table Datum Datum :=
  places.foldl flags.put scores

namespace Flags

variable {flags : Flags} {scores : Table Datum Datum} {places front back : List (Datum × Datum)}
  {m : Datum}

@[simp] theorem putAll_append :
    flags.putAll scores (front ++ back) = flags.putAll (flags.putAll scores front) back := by
  simp [putAll]

@[simp] theorem putAll_cons {e : Datum × Datum} :
    flags.putAll scores (e :: back) = flags.putAll (flags.put scores e) back := rfl

theorem get?_putAll_of_ne (h : ∀ e ∈ places, m ≠ e.1) :
    (flags.putAll scores places).get? m = scores.get? m := by
  induction places generalizing scores with
  | nil => rfl
  | cons e rest ih =>
      rw [List.forall_mem_cons] at h
      rw [putAll_cons, ih h.2, get?_put_of_ne _ _ _ h.1]

theorem get?_putAll_onlyNew (hGuard : flags.guard = .onlyNew) {old : Datum}
    (h : scores.get? m = some old) : (flags.putAll scores places).get? m = some old := by
  induction places generalizing scores with
  | nil => exact h
  | cons e rest ih => exact ih (get?_put_onlyNew hGuard h)

theorem contains_putAll_onlyOld (hGuard : flags.guard = .onlyOld) :
    (flags.putAll scores places).contains m = scores.contains m := by
  induction places generalizing scores with
  | nil => rfl
  | cons e rest ih => rw [putAll_cons, ih, contains_put_onlyOld hGuard]

theorem contains_putAll (h : scores.contains m = true) :
    (flags.putAll scores places).contains m = true := by
  induction places generalizing scores with
  | nil => exact h
  | cons e rest ih => exact ih (contains_put h)

/-- Of a missing key nothing comes if only old members are written. -/
theorem putAll_empty (hGuard : flags.guard = .onlyOld) : flags.putAll .empty places = .empty := by
  induction places with
  | nil => rfl
  | cons e rest ih =>
      have hNot : flags.allows ((Table.empty : Table Datum Datum).get? e.1) = false := by
        simp [allows, hGuard]
      rw [putAll_cons, put, hNot]
      exact ih

/-- A member that is new has the score of its first place, if only new ones are written. -/
theorem get?_putAll_first (hGuard : flags.guard = .onlyNew) {e : Datum × Datum}
    (hFirst : ∀ d ∈ front, e.1 ≠ d.1) (hNew : scores.get? e.1 = none) :
    (flags.putAll scores (front ++ e :: back)).get? e.1 = some e.2 := by
  have hStill : (flags.putAll scores front).get? e.1 = none :=
    (get?_putAll_of_ne hFirst).trans hNew
  rw [putAll_append, putAll_cons]
  apply get?_putAll_onlyNew hGuard
  rw [get?_put, if_pos]
  simp [allows, hGuard, hStill]

/-- A member has the score of its last place, if old ones are written too. -/
theorem get?_putAll_last (hGuard : flags.guard ≠ .onlyNew) {e : Datum × Datum}
    (hLast : ∀ d ∈ back, e.1 ≠ d.1) (hOpen : flags.guard = .any ∨ scores.contains e.1 = true) :
    (flags.putAll scores (front ++ e :: back)).get? e.1 = some e.2 := by
  rw [putAll_append, putAll_cons, get?_putAll_of_ne hLast, get?_put, if_pos]
  refine ⟨rfl, ?_⟩
  unfold allows
  rcases hOpen with hAny | hOld
  · rw [hAny]
  · have hStill : (flags.putAll scores front).contains e.1 = true := contains_putAll hOld
    cases hHere : flags.guard with
    | any => rfl
    | onlyNew => exact absurd hHere hGuard
    | onlyOld => exact hStill

variable (flags)

theorem write_fst (scores : Table Datum Datum) (places : List (Datum × Datum)) :
    (flags.write scores places).1 = flags.putAll scores places := by
  induction places generalizing scores with
  | nil => rfl
  | cons e rest ih => rw [write_cons, ih, putAll_cons]

variable {flags}

/-- Without the flag for changes, the count is the growth. -/
theorem write_plain (hPlain : flags.changed = false) :
    (flags.putAll scores places).size = scores.size + (flags.write scores places).2 := by
  induction places generalizing scores with
  | nil => rfl
  | cons e rest ih =>
      rw [write_cons, putAll_cons, ih, size_put hPlain]
      omega

/-- With it, the count is that of the places that alter the table. -/
theorem write_changed (hChanged : flags.changed = true)
    (hSelf : ∀ e ∈ places, Datum.same e.2 e.2 = true) :
    (flags.write scores places).2 = flags.alterations scores places := by
  induction places generalizing scores with
  | nil => rfl
  | cons e rest ih =>
      rw [List.forall_mem_cons] at hSelf
      rw [write_cons, alterations, ih hSelf.2, altered_put hChanged hSelf.1]

end Flags

/-- What places leave of a table of scores, and the count that is answered. -/
structure Written (flags : Flags) (points : List Point) (before after : Table Datum Datum)
    (n : Nat) : Prop where
  untouched : ∀ m, (∀ p ∈ points, m ≠ .octets p.member) → after.get? m = before.get? m
  kept : flags.guard = .onlyNew → ∀ m score, before.get? m = some score →
    after.get? m = some score
  first : flags.guard = .onlyNew → ∀ front p back, points = front ++ p :: back →
    (∀ q ∈ front, p.member ≠ q.member) → before.get? (.octets p.member) = none →
    after.get? (.octets p.member) = some (.real p.score)
  members : flags.guard = .onlyOld → ∀ m, after.contains m = before.contains m
  last : flags.guard ≠ .onlyNew → ∀ front p back, points = front ++ p :: back →
    (∀ q ∈ back, p.member ≠ q.member) →
    flags.guard = .any ∨ before.contains (.octets p.member) = true →
    after.get? (.octets p.member) = some (.real p.score)
  growth : flags.changed = false → after.size = before.size + n
  alterations : flags.changed = true → n = flags.alterations before (points.map Point.entry)

theorem written_putAll (flags : Flags) (points : List Point) (before : Table Datum Datum) :
    Written flags points before (flags.putAll before (points.map Point.entry))
      (flags.write before (points.map Point.entry)).2 where
  untouched := by
    intro m hOther
    apply Flags.get?_putAll_of_ne
    simpa [Point.entry] using hOther
  kept := fun hGuard _ _ hOld => Flags.get?_putAll_onlyNew hGuard hOld
  first := by
    rintro hGuard front p back rfl hFirst hNew
    rw [List.map_append, List.map_cons]
    refine Flags.get?_putAll_first hGuard ?_ hNew
    simpa [Point.entry] using hFirst
  members := fun hGuard _ => Flags.contains_putAll_onlyOld hGuard
  last := by
    rintro hGuard front p back rfl hLast hOpen
    rw [List.map_append, List.map_cons]
    refine Flags.get?_putAll_last hGuard ?_ hOpen
    simpa [Point.entry] using hLast
  growth := fun hPlain => Flags.write_plain hPlain
  alterations := fun hChanged =>
    Flags.write_changed hChanged (by simp [Point.entry, Point.same_score])

end Places

/-- A table that is written with the deadline of what shows, shows, unless it is empty. -/
theorem Entry.shown?_replaceUnlessEmpty {now : Float} {seen : Option Entry}
    (h : shown? now seen = seen) (v : Value) :
    shown? now (replaceUnlessEmpty seen v) = replaceUnlessEmpty seen v := by
  unfold replaceUnlessEmpty
  split
  · rfl
  · exact shown?_replace h v

namespace Store

open Places

/-- A request of places with flags in front is read to them. -/
theorem run_geoadd {c : Command} {key : Octets} {ws : List Octets} {points : List Point}
    (now : Float)
    (hRequest : c.request? = some (.geoadd, key :: (ws ++ points.flatMap Point.words)))
    (hFlags : ∀ w ∈ ws, IsFlag w) (hSome : points ≠ []) :
    run now c = given (readPlaces (points.map Point.triple))
      fun places => onKey now key (geoaddStep (Flags.inForce ws) places) := by
  obtain ⟨p, rest, rfl⟩ := List.exists_cons_of_ne_nil hSome
  have hMany : CommandType.geoadd.minArity ≤
      (key :: (ws ++ (p :: rest).flatMap Point.words)).length := by
    simp [CommandType.minArity, Point.words]
    omega
  have hPlaces : ∀ w ∈ ((p :: rest).flatMap Point.words).head?, ¬ IsFlag w := by
    intro w hw
    cases hw
    exact not_isFlag_of_real? p.longitude_read
  have hRead := Flags.read_append {} hFlags hPlaces
  rw [run_of_open hRequest rfl hMany]
  show geoadd now key (ws ++ (p :: rest).flatMap Point.words) = _
  unfold geoadd
  rw [hRead]
  dsimp only
  rw [triples_words]
  rfl

/-- A request without places is refused. -/
theorem run_geoadd_nil {c : Command} {key : Octets} {ws : List Octets} (now : Float)
    (hRequest : c.request? = some (.geoadd, key :: ws)) (hFlags : ∀ w ∈ ws, IsFlag w) (s : Store) :
    ∃ r, run now c s = (refuse r, s) := by
  rw [run_of_request? hRequest, runType]
  split
  · have hRead : Flags.read {} (ws ++ []) = (Flags.inForce ws, []) :=
      Flags.read_append {} hFlags (by simp)
    rw [List.append_nil] at hRead
    refine ⟨.syntaxError, ?_⟩
    show geoadd now key ws s = _
    unfold geoadd
    rw [hRead]
    rfl
  · exact ⟨.wrongArity .geoadd, rfl⟩

theorem geoaddStep_ok (flags : Flags) (places : List (Datum × Datum)) {seen : Option Entry}
    {before : Table Datum Datum} (h : SortedSets.scoresAt seen = .ok before) :
    geoaddStep flags places seen = .ok (.int (flags.write before places).2,
      Entry.replaceUnlessEmpty seen (.zset (flags.putAll before places))) := by
  unfold geoaddStep
  rw [h, ← Flags.write_fst]
  rfl

/-- GEOADD with any flags and any places, on any store that submissions lead to and at any reading
of the clock.

* On a sorted set or a missing key, places on the map are `Written` under the last guard among the
  flags. Members that are not named keep their scores. Under NX every member keeps its score, and a
  new one gets that of its first place. Under XX the members stay the same ones, and a missing key
  stays missing. Without a guard each member that is named gets the score of its last place, under
  XX each one that was there. The answer is by how many members there are more, or with CH how many
  of the places, taken in turn, added a member or changed its score. What is left shows with the
  deadline that was there.
* If a place is off the map, wherever it stands among the others, the request is refused and the
  store is left as it is.
* So is a request without places. -/
theorem geoadd_by_flags {s : Store} (hs : s.Reachable) (now : Float) {c : Command} {key : Octets}
    {ws : List Octets} {points : List Point}
    (hRequest : c.request? = some (.geoadd, key :: (ws ++ points.flatMap Point.words)))
    (hFlags : ∀ w ∈ ws, IsFlag w) :
    let flags := Flags.inForce ws
    let seen := s.live? now s.selected key
    (∀ before, SortedSets.scoresAt seen = .ok before → points ≠ [] → (∀ p ∈ points, p.OnMap) →
      ∃ n after, Written flags points before after n ∧
        (run now c s).1 = .ok (.int n) ∧
        (run now c s).2.live? now s.selected key = Entry.replaceUnlessEmpty seen (.zset after) ∧
        (flags.guard = .onlyOld → seen = none →
          (run now c s).2.live? now s.selected key = none)) ∧
    ((∃ p ∈ points, ¬ p.OnMap) → ∃ p ∈ points, ¬ p.OnMap ∧
      run now c s = (refuse (.invalidPoint p.longitude p.latitude), s)) ∧
    (points = [] → ∃ r, run now c s = (refuse r, s)) := by
  intro flags seen
  refine ⟨fun before hBefore hSome hMap => ?_, fun hOff => ?_, fun hNone => ?_⟩
  · have hRun := run_geoadd now hRequest hFlags hSome
    rw [readPlaces_onMap hMap] at hRun
    let d : Deed := ⟨now, c, s⟩
    obtain ⟨hReply, -, hLeft⟩ := @Deed.onKey_ok d (s.selected, key) _ _ _ (reachable_selected hs)
      rfl (congrFun hRun s) (geoaddStep_ok flags (points.map Point.entry) hBefore)
    rw [Entry.shown?_replaceUnlessEmpty (d.shown?_seen _)] at hLeft
    refine ⟨_, _, written_putAll flags points before, hReply, hLeft, fun hGuard hMissing => ?_⟩
    have hEmpty : before = .empty := by
      rw [hMissing] at hBefore
      exact (Except.ok.inj hBefore).symm
    refine hLeft.trans ?_
    rw [hEmpty, Flags.putAll_empty hGuard]
    rfl
  · have hSome : points ≠ [] := by
      rintro rfl
      simp at hOff
    obtain ⟨p, hp, hNot, hRead⟩ := readPlaces_offMap hOff
    rw [run_geoadd now hRequest hFlags hSome, hRead]
    exact ⟨p, hp, hNot, rfl⟩
  · subst hNone
    rw [List.flatMap_nil, List.append_nil] at hRequest
    exact run_geoadd_nil now hRequest hFlags s

/-- Under NX and CH one member keeps its score, and one that is named twice is added once; a place
off the map behind another is refused. -/
theorem geoadd_by_flags_new :
    let add : Submission := ⟨[⟨.geoadd, [.text "k", .text "13", .text "38", .text "a"]⟩], false⟩
    let s := (history run [(0.0, add)] { databases := [.empty] }).2
    let more : Command := ⟨.customCommand, [.text "geoadd", .text "k", .text "nx", .text "CH",
      .text "15", .text "37", .text "a", .text "15", .text "37", .text "c",
      .text "13", .text "38", .text "c"]⟩
    let far : Command := ⟨.geoadd, [.text "k", .text "15", .text "37", .text "a",
      .text "15", .text "86", .text "a"]⟩
    s.Reachable ∧
      (∃ points before after, points.map Point.member = [[97], [99], [99]] ∧
        SortedSets.scoresAt (s.live? 1.0 0 [107]) = .ok before ∧
        Written { guard := .onlyNew, changed := true } points before after 1 ∧
        (run 1.0 more s).1 = .ok (.int 1) ∧
        (run 1.0 more s).2.live? 1.0 0 [107] =
          Entry.replaceUnlessEmpty (s.live? 1.0 0 [107]) (.zset after)) ∧
      ∃ r, run 1.0 far s = (refuse r, s) := by
  intro add s more far
  have hReachable : s.Reachable := ⟨1, _, _, rfl, rfl⟩
  have hSelected : s.selected = 0 := by decide +kernel
  let named : Octets → Point := fun m =>
    ⟨[49, 53], [51, 55], m, 15.0, 37.0, by decide +kernel, by decide +kernel⟩
  let again : Point := ⟨[49, 51], [51, 56], [99], 13.0, 38.0, by decide +kernel, by decide +kernel⟩
  let off : Point := ⟨[49, 53], [56, 54], [97], 15.0, 86.0, by decide +kernel, by decide +kernel⟩
  obtain ⟨before, hBefore⟩ : ∃ before, SortedSets.scoresAt (s.live? 1.0 s.selected [107]) =
      .ok before := ⟨_, by rfl⟩
  refine ⟨hReachable, ⟨[named [97], named [99], again], before, ?_⟩, ?_⟩
  · obtain ⟨hWrites, -⟩ := @geoadd_by_flags s hReachable 1.0 more [107] [[110, 120], [67, 72]]
      [named [97], named [99], again] rfl (by decide +kernel)
    obtain ⟨n, after, hWritten, hReply, hLive, -⟩ := hWrites before hBefore (by simp)
      (by decide +kernel)
    have hOne : (run 1.0 more s).1 = .ok (.int 1) := by decide +kernel
    rw [hOne] at hReply
    cases hReply
    exact ⟨after, rfl, hSelected ▸ hBefore, hWritten, hOne, hSelected ▸ hLive⟩
  · obtain ⟨-, hRefused, -⟩ := @geoadd_by_flags s hReachable 1.0 far [107] []
      [named [97], off] rfl (by simp)
    obtain ⟨p, -, -, hFar⟩ := hRefused ⟨off, by simp, by decide +kernel⟩
    exact ⟨_, hFar⟩

/-- Of NX and XX the last one is in force, so under NX a member can get another score if XX stands
behind it. -/
theorem geoadd_last_guard :
    let add : Submission := ⟨[⟨.geoadd, [.text "k", .text "13", .text "38", .text "a"]⟩], false⟩
    let s := (history run [(0.0, add)] { databases := [.empty] }).2
    let both : Command := ⟨.customCommand, [.text "GEOADD", .text "k", .text "NX", .text "XX",
      .text "CH", .text "15", .text "37", .text "a"]⟩
    let scoreIn (t : Store) : Option Datum :=
      ((t.live? 1.0 0 [107]).bind (·.value.zset?)).bind (·.get? (.octets [97]))
    s.Reachable ∧
      (∃ (ws : List Octets) (p : Point), both.request? =
          some (.geoadd, [107] :: (ws ++ [p].flatMap Point.words)) ∧
        (∀ w ∈ ws, IsFlag w) ∧ (∃ w ∈ ws, guard? w = some .onlyNew) ∧ p.OnMap) ∧
      (run 1.0 both s).1 = .ok (.int 1) ∧
      (scoreIn s).isSome ∧ scoreIn (run 1.0 both s).2 ≠ scoreIn s := by
  intro add s both scoreIn
  let p : Point := ⟨[49, 53], [51, 55], [97], 15.0, 37.0, by decide +kernel, by decide +kernel⟩
  have hOnMap : p.OnMap := by decide +kernel
  refine ⟨⟨1, _, _, rfl, rfl⟩, ⟨[[78, 88], [88, 88], [67, 72]], p, rfl, ?_, ?_, hOnMap⟩, ?_, ?_, ?_⟩
    <;> decide +kernel

end Store

end BatchStore
