import BatchStore.Proofs.Options.Order
import BatchStore.Proofs.Options.Said
import BatchStore.Proofs.Options.Words
import BatchStore.Proofs.Store.Breaks

/-!
# RESTORE and COPY read what their options say

The options are flags, a hint that is passed over, and for COPY the number of a database, which
must be there. They may stand in any order.
-/

namespace BatchStore

/-! ## RESTORE -/

namespace Backup.RestorePlan

variable (p : RestorePlan) (v : Octets) (rest : List Octets)

theorem read_replace : read p (Keyword.replace.octets :: rest) =
    read { p with replace := true } rest := by
  conv => lhs; unfold read
  rw [Keyword.ofOctets?_octets]

theorem read_absttl : read p (Keyword.absttl.octets :: rest) =
    read { p with absolute := true } rest := by
  conv => lhs; unfold read
  rw [Keyword.ofOctets?_octets]

/-- Words about eviction are read and dropped, but for a number that is none. -/
theorem read_eviction (t : EvictionType) : read p (t.keyword.octets :: v :: rest) = (do
    let _ ← readInt v
    read p rest) := by
  conv => lhs; unfold read
  rw [Keyword.ofOctets?_octets]
  cases t <;> rfl

end Backup.RestorePlan

namespace RestoreOptions

open Backup

variable {o : RestoreOptions}

/-- What the flag for a key that is there does to a restore. -/
def putReplace (o : RestoreOptions) (p : RestorePlan) : RestorePlan :=
  { p with replace := o.replace || p.replace }

/-- What the flag for a moment does to a restore. -/
def putAbsolute (o : RestoreOptions) (p : RestorePlan) : RestorePlan :=
  { p with absolute := o.absTtl || p.absolute }

theorem reads_replace (o : RestoreOptions) :
    Reads RestorePlan.read (octetsOf (if o.replace then [Keyword.replace.arg] else []))
      fun p => .ok (o.putReplace p) := by
  intro p rest
  unfold putReplace
  cases o.replace
  · rfl
  · exact RestorePlan.read_replace p rest

theorem reads_absolute (o : RestoreOptions) :
    Reads RestorePlan.read (octetsOf (if o.absTtl then [Keyword.absttl.arg] else []))
      fun p => .ok (o.putAbsolute p) := by
  intro p rest
  unfold putAbsolute
  cases o.absTtl
  · rfl
  · exact RestorePlan.read_absttl p rest

/-- A hint is passed over. -/
theorem reads_eviction (hTyped : o.IsTyped) {words : ArgList} (h : o.evictionArgs = .ok words) :
    Reads RestorePlan.read (octetsOf words) .ok := by
  intro p rest
  obtain ⟨replace, absTtl, eviction?⟩ := o
  cases eviction? with
  | none =>
      cases h
      rfl
  | some e =>
      obtain ⟨⟨t, hWord⟩, hWhole⟩ := hTyped e rfl
      obtain ⟨s, hText, hRest⟩ := ok_of_bind h
      cases hRest
      rw [hWord]
      show RestorePlan.read p (t.keyword.octets :: Octets.ofText s :: rest) = _
      rw [RestorePlan.read_eviction, readInt_numberText hWhole hText 0]
      rfl

/-- The words of the options are those of their groups, one after another. -/
theorem toArgs_eq (o : RestoreOptions) : o.toArgs = o.groups.map List.flatten := by
  unfold toArgs groups evictionArgs
  have hFlat (eviction : ArgList) :
      (if o.replace then [Keyword.replace.arg] else []) ++
          (if o.absTtl then [Keyword.absttl.arg] else []) ++ eviction =
        [if o.replace then [Keyword.replace.arg] else [],
          if o.absTtl then [Keyword.absttl.arg] else [], eviction].flatten := by
    simp
  cases o.eviction? with
  | none => exact congrArg Except.ok (hFlat [])
  | some e =>
      dsimp only
      cases numberText e.count with
      | error f => rfl
      | ok s => exact congrArg Except.ok (hFlat _)

/-- RESTORE reads its options to what they say, in any order. -/
theorem read_eq (hTyped : o.IsTyped) {groups words : List ArgList} (h : o.groups = .ok groups)
    (hPerm : words.Perm groups) :
    RestorePlan.read {} (octetsOf words.flatten) = .ok o.plan := by
  obtain ⟨eviction, hEviction, hRest⟩ := ok_of_bind h
  cases hRest
  have hReads := List.Forall₂.cons (reads_replace o)
    (.cons (reads_absolute o) (.cons (reads_eviction hTyped hEviction) .nil))
  rw [read_groups (fun _ => rfl) hPerm hReads (commute_triple (commute_ok fun _ => rfl)
    (fun _ => rfl) fun _ => rfl)]
  show Except.ok _ = Except.ok _
  simp [plan, putReplace, putAbsolute]

end RestoreOptions

/-! ## COPY -/

namespace Keys.CopyPlan

variable (s : Store) (p : CopyPlan) (v : Octets) (rest : List Octets)

theorem read_db : read s p (Keyword.db.octets :: v :: rest) = (do
    let index ← readInt v
    let target ← s.index? index
    read s { p with target } rest) := by
  conv => lhs; unfold read
  rw [Keyword.ofOctets?_octets]

theorem read_replace : read s p (Keyword.replace.octets :: rest) =
    read s { p with replace := true } rest := by
  conv => lhs; unfold read
  rw [Keyword.ofOctets?_octets]

end Keys.CopyPlan

namespace CopyOptions

open Keys

variable (s : Store) {o : CopyOptions}

/-- What the database does to a copy. -/
def putTarget (s : Store) (o : CopyOptions) (p : CopyPlan) : Except Halt CopyPlan :=
  if o.database = .null then .ok p
  else (s.index? (o.database.wholeOr 0)).map fun target => { p with target }

/-- The database goes into the plan as the target, if there is such a one. -/
theorem reads_database (hTyped : o.IsTyped) {words : ArgList}
    (h : numberOption .db o.database = .ok words) :
    Reads (CopyPlan.read s) (octetsOf words) (o.putTarget s) := by
  intro p rest
  unfold putTarget
  rcases numberOption_eq_ok hTyped h with ⟨hNull, rfl⟩ | ⟨n, text, hNumber, rfl, hRead⟩
  · rw [if_pos hNull]
    rfl
  · have hSome : Datum.int n ≠ .null := fun hEq => nomatch hEq
    show CopyPlan.read s p (Keyword.db.octets :: Octets.ofText text :: rest) = _
    rw [CopyPlan.read_db, hRead, hNumber, if_neg hSome]
    show (s.index? n >>= fun target => CopyPlan.read s { p with target } rest) = _
    show _ = (s.index? n).map _ >>= _
    cases s.index? n <;> rfl

/-- What the flag for a key that is there does to a copy. -/
def putReplace (o : CopyOptions) (p : CopyPlan) : CopyPlan :=
  { p with replace := o.replace || p.replace }

theorem reads_replace (o : CopyOptions) :
    Reads (CopyPlan.read s) (octetsOf (if o.replace then [Keyword.replace.arg] else []))
      fun p => .ok (o.putReplace p) := by
  intro p rest
  unfold putReplace
  cases o.replace
  · rfl
  · exact CopyPlan.read_replace s p rest

/-- COPY reads its options to what they say, in any order. -/
theorem read_eq (hTyped : o.IsTyped) {groups words : List ArgList} (h : o.groups = .ok groups)
    (hPerm : words.Perm groups) :
    CopyPlan.read s { target := s.selected } (octetsOf words.flatten) = o.plan s := by
  obtain ⟨database, hDatabase, hRest⟩ := ok_of_bind h
  cases hRest
  have hReads := List.Forall₂.cons (reads_database s hTyped hDatabase)
    (.cons (reads_replace s o) .nil)
  have hCommute : Commute (o.putTarget s) fun p => .ok (o.putReplace p) := by
    intro p
    show o.putTarget s p >>= _ = o.putTarget s (o.putReplace p)
    unfold putTarget
    by_cases hNull : o.database = .null
    · rw [if_pos hNull, if_pos hNull]
      rfl
    · rw [if_neg hNull, if_neg hNull]
      cases s.index? (o.database.wholeOr 0) <;> rfl
  rw [read_groups (fun _ => rfl) hPerm hReads (commute_pair hCommute)]
  unfold plan
  show o.putTarget s { target := s.selected } >>= _ = _
  unfold putTarget
  by_cases hNull : o.database = .null
  · rw [if_pos hNull, if_pos hNull]
    show Except.ok _ = Except.ok _
    simp [putReplace]
  · rw [if_neg hNull, if_neg hNull]
    cases s.index? (o.database.wholeOr 0) with
    | error halt => rfl
    | ok target =>
        show Except.ok _ = Except.ok _
        simp [putReplace]

end CopyOptions

end BatchStore
