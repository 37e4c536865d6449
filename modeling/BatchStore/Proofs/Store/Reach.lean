import BatchStore.Proofs.Store.Script
import BatchStore.Proofs.Store.Trace

/-!
# Which databases a command reaches

A command writes to the selected database. Only MOVE, and COPY when it is told to, write to
another one, and only SELECT changes which one is selected. INFO looks at all databases and
takes their expired keys out.

`s.Confined now reach t` says what may have become of a store `s` in terms of the databases
within reach: the same database is selected, there are as many as before, and a database out
of reach is as it was or has lost its expired keys. `StaysWithin now reach p` says so of
whatever an act `p` does when it starts with a database within reach selected. The acts of the
store are put together from few pieces, and each piece keeps to its databases, so a command
does (`step_staysWithin`), whatever it does to the keys.

With all databases within reach nothing is said about their contents, but SELECT is still the
one command that changes the selection, and no command changes how many databases there are.
-/

namespace BatchStore

namespace Database

/-- Expired keys that are out already are not taken out again. -/
theorem settleAll_settleAll (db : Database) (now : Float) :
    (db.settleAll now).settleAll now = db.settleAll now := by
  unfold settleAll Table.filter
  dsimp only
  rw [List.filter_filter]
  simp only [Bool.and_self]

/-- Taking expired keys out leaves a key that shows as it is. -/
theorem live?_settleAll_of_live? {db : Database} {now : Float} {key : Octets} {e : Entry}
    (h : db.live? now key = some e) : (db.settleAll now).live? now key = some e := by
  obtain ⟨entries⟩ := db
  have hFirst : entries.lookup key = some e ∧ e.isExpired now = false := by
    rw [live?_eq, Entry.shown?, Option.filter_eq_some_iff, Bool.not_eq_true'] at h
    exact h
  have hKept : (entries.filter fun p => !p.2.isExpired now).lookup key = some e := by
    clear h
    induction entries with
    | nil => exact hFirst.1
    | cons p rest ih =>
        obtain ⟨k, first⟩ := p
        obtain ⟨hLookup, hLive⟩ := hFirst
        rw [List.lookup_cons] at hLookup
        by_cases hk : (key == k) = true
        · rw [hk] at hLookup
          cases hLookup
          simp [hLive, List.lookup_cons, hk]
        · rw [Bool.not_eq_true] at hk
          rw [hk] at hLookup
          have hRest := ih ⟨hLookup, hLive⟩
          rw [List.filter_cons]
          split
          · rw [List.lookup_cons, hk]
            exact hRest
          · exact hRest
  rw [live?_eq, Entry.shown?, Option.filter_eq_some_iff, Bool.not_eq_true']
  exact ⟨hKept, hFirst.2⟩

end Database

namespace Store

/-- What may have become of a store by acts on the databases within reach. -/
structure Confined (now : Float) (reach : Nat → Prop) (s t : Store) : Prop where
  selected : t.selected = s.selected
  count : t.databases.length = s.databases.length
  others : ∀ i, ¬ reach i →
    t.database i = s.database i ∨ t.database i = (s.database i).settleAll now

namespace Confined

variable {now : Float} {reach : Nat → Prop} {s t u : Store}

/-- A store that is as it was is confined to any databases. -/
theorem refl (now : Float) (reach : Nat → Prop) (s : Store) : s.Confined now reach s :=
  ⟨rfl, rfl, fun _ _ => .inl rfl⟩

/-- What one step and the next leave alone, the two together leave alone. -/
theorem trans (hst : s.Confined now reach t) (htu : t.Confined now reach u) :
    s.Confined now reach u where
  selected := htu.selected.trans hst.selected
  count := htu.count.trans hst.count
  others := by
    intro i hi
    rcases hst.others i hi with hKept | hSettled <;> rcases htu.others i hi with hAfter | hAfter <;>
      rw [hAfter]
    · exact .inl hKept
    · exact .inr (by rw [hKept])
    · exact .inr hSettled
    · exact .inr (by rw [hSettled, Database.settleAll_settleAll])

/-- A database within reach may become any other. -/
theorem setDatabase {i : Nat} (hi : reach i) (db : Database) :
    s.Confined now reach (s.setDatabase i db) where
  selected := rfl
  count := length_setDatabase s i db
  others := by
    intro j hj
    have hNe : ¬ (j = i ∧ i < s.databases.length) := fun h => hj (h.1 ▸ hi)
    rw [database_setDatabase, if_neg hNe]
    exact .inl rfl

/-- A sweep takes nothing but expired keys out of any database. -/
theorem sweep (now : Float) (reach : Nat → Prop) (s : Store) :
    s.Confined now reach (s.sweep now) where
  selected := rfl
  count := List.length_map _
  others := by
    intro i _
    exact .inr (database_sweep s now i)

/-- A key that shows, in a database out of reach, shows as before. -/
theorem live? (h : s.Confined now reach t) {i : Nat} (hi : ¬ reach i) {key : Octets} {e : Entry}
    (hLive : s.live? now i key = some e) : t.live? now i key = some e := by
  unfold Store.live? at hLive ⊢
  rcases h.others i hi with hKept | hSettled
  · rw [hKept]
    exact hLive
  · rw [hSettled]
    exact Database.live?_settleAll_of_live? hLive

end Confined

/-! ## Acts that keep to their databases -/

/-- An act that, begun with a database within reach selected, confines itself to those. -/
def StaysWithin (now : Float) (reach : Nat → Prop) {α : Type} (p : Act α) : Prop :=
  ∀ s : Store, reach s.selected → s.Confined now reach (p s).2

namespace StaysWithin

variable {now : Float} {reach : Nat → Prop} {α β : Type}

theorem answer (x : Except Halt α) : StaysWithin now reach fun s => (x, s) :=
  fun s _ => .refl now reach s

/-- Acts that stay within reach do so one after another, as the selection stays within reach. -/
theorem andThen {first : Act α} {next : α → Act β} (hFirst : StaysWithin now reach first)
    (hNext : ∀ a, StaysWithin now reach (next a)) :
    StaysWithin now reach (Store.andThen first next) := by
  intro s hs
  have hBefore := hFirst s hs
  unfold Store.andThen
  rcases hRun : first s with ⟨h | a, t⟩ <;> rw [hRun] at hBefore
  · exact hBefore
  · have hSelected : reach t.selected := hBefore.selected ▸ hs
    exact hBefore.trans (hNext a t hSelected)

/-- A check before an act does nothing to the store. -/
theorem given {x : Except Halt α} {next : α → Act β} (hNext : ∀ a, StaysWithin now reach (next a)) :
    StaysWithin now reach (Store.given x next) :=
  andThen (answer x) hNext

/-- The selected database is within reach, whichever it is. -/
theorem withSelected {next : Nat → Act α}
    (hNext : ∀ i, reach i → StaysWithin now reach (next i)) :
    StaysWithin now reach (Store.withSelected next) :=
  fun s hs => hNext s.selected hs s hs

theorem withLibraries {next : Table Datum Datum → Act α}
    (hNext : ∀ libraries, StaysWithin now reach (next libraries)) :
    StaysWithin now reach (Store.withLibraries next) :=
  fun s hs => hNext s.libraries s hs

theorem relabel (libraries : Table Datum Datum) (x : Except Halt α) :
    StaysWithin now reach fun s => (x, { s with libraries }) :=
  fun _ _ => ⟨rfl, rfl, fun _ _ => .inl rfl⟩

/-- Looking a key up may take it out of its database, if it is expired. -/
theorem lookUp {i : Nat} (hi : reach i) (key : Octets) {next : Option Entry → Act α}
    (hNext : ∀ seen, StaysWithin now reach (next seen)) :
    StaysWithin now reach (Store.lookUp now i key next) := by
  intro s hs
  have hSettled : s.Confined now reach (s.settle now i key) := .setDatabase hi _
  exact hSettled.trans (hNext (s.live? now i key) (s.settle now i key) hs)

/-- A write, and what is done behind it. -/
theorem write {i : Nat} (hi : reach i) (key : Octets) (e? : Option Entry) {next : Act α}
    (hNext : StaysWithin now reach next) :
    StaysWithin now reach fun s => next (s.setEntry i key e?) :=
  fun s hs => (Confined.setDatabase hi _).trans (hNext (s.setEntry i key e?) hs)

/-- A step on a key of a database within reach writes there alone. -/
theorem onKeyIn {i : Nat} (hi : reach i) (key : Octets) (step : KeyStep) :
    StaysWithin now reach (Store.onKeyIn now i key step) :=
  lookUp hi key fun _ => given fun a => write hi key a.2 (answer (.ok a.1))

theorem onKey (key : Octets) (step : KeyStep) :
    StaysWithin now reach (Store.onKey now key step) :=
  withSelected fun _ hi => onKeyIn hi key step

theorem onEach (step : KeyStep) (keys : List Octets) :
    StaysWithin now reach (Store.onEach now step keys) := by
  induction keys with
  | nil => exact answer (.ok [])
  | cons key keys ih =>
      exact andThen (onKey key step) fun reply =>
        andThen ih fun replies => answer (.ok (reply :: replies))

theorem countKeys (step : KeyStep) (keys : List Octets) :
    StaysWithin now reach (Store.countKeys now step keys) :=
  andThen (onEach step keys) fun replies => answer (.ok (Datum.int (total replies)))

theorem listKeys (step : KeyStep) (keys : List Octets) :
    StaysWithin now reach (Store.listKeys now step keys) :=
  andThen (onEach step keys) fun replies => answer (.ok (Datum.list replies))

/-- The count of the keys of the selected database, once the expired ones are out. -/
theorem count {i : Nat} (hi : reach i) (reply : Database → Except Halt α) :
    StaysWithin now reach fun s =>
      (reply ((s.settleAll now i).database i), s.settleAll now i) :=
  fun _ _ => .setDatabase hi _

/-! ## The commands -/

/-- INFO takes expired keys out of all databases, within reach or not. -/
theorem info : StaysWithin now reach (Server.info now) := fun s _ => .sweep now reach s

theorem flushdb : StaysWithin now reach Server.flushdb :=
  withSelected fun _ hi _ _ => .setDatabase hi _

theorem rename (key newKey : Octets) : StaysWithin now reach (Keys.rename now key newKey) := by
  refine withSelected fun i hi => lookUp hi key fun seen => ?_
  cases seen with
  | none => exact answer _
  | some e => exact write hi key none (write hi newKey (some e) (answer _))

/-- MOVE writes to the database of the key and to the one that it is moved to. -/
theorem moveTo {target i : Nat} (hTarget : reach target) (hi : reach i) (key : Octets) :
    StaysWithin now reach (Keys.moveTo now key target i) := by
  unfold Keys.moveTo
  split
  · exact answer _
  · refine lookUp hi key fun seen => ?_
    cases seen with
    | none => exact answer _
    | some e =>
        refine lookUp hTarget key fun taken => ?_
        cases taken with
        | some _ => exact answer _
        | none => exact write hTarget key (some e) (write hi key none (answer _))

/-- MOVE may name any database, so that all have to be within reach. -/
theorem move (hAll : ∀ i, reach i) (key index : Octets) :
    StaysWithin now reach (Keys.move now key index) := by
  intro s hs
  have hStays : StaysWithin now reach (Store.given ((readInt index).bind s.index?) fun target =>
      Store.withSelected (Keys.moveTo now key target)) :=
    given fun target => withSelected fun i hi => moveTo (hAll target) hi key
  exact hStays s hs

/-- COPY writes to the database that its options name. -/
theorem copyPlan_run {plan : Keys.CopyPlan} (hTarget : reach plan.target) {i : Nat} (hi : reach i)
    (source destination : Octets) : StaysWithin now reach (plan.run now source destination i) := by
  unfold Keys.CopyPlan.run
  split
  · exact answer _
  · refine lookUp hi source fun seen => ?_
    cases seen with
    | none => exact answer _
    | some e =>
        refine lookUp hTarget destination fun taken => ?_
        by_cases hTaken : (taken.isSome && !plan.replace) = true
        · simp only [hTaken, if_true]
          exact answer _
        · simp only [hTaken]
          exact write hTarget destination (some e) (answer _)

/-- Without the keyword that names a database a copy stays where it is. -/
theorem copyPlan_target {s : Store} {options : List Octets} {plan after : Keys.CopyPlan}
    (hOptions : ∀ w ∈ options, Keyword.ofOctets? w ≠ some .db)
    (h : Keys.CopyPlan.read s plan options = .ok after) : after.target = plan.target := by
  fun_induction Keys.CopyPlan.read s plan options with
  | case1 plan =>
      cases h
      rfl
  | case2 plan w index rest hWord =>
      exact absurd hWord (hOptions w List.mem_cons_self)
  | case3 plan w rest hWord ih =>
      exact ih (fun w' hw' => hOptions w' (List.mem_cons_of_mem _ hw')) h
  | case4 => cases h

/-- COPY keeps to the selected database unless one of its options is DB. -/
theorem copy {options : List Octets}
    (hOptions : (∀ w ∈ options, Keyword.ofOctets? w ≠ some .db) ∨ ∀ i, reach i)
    (source destination : Octets) :
    StaysWithin now reach (Keys.copy now source destination options) := by
  intro s hs
  unfold Keys.copy
  cases hRead : Keys.CopyPlan.read s { target := s.selected } options with
  | error h => exact .refl now reach s
  | ok plan =>
      have hTarget : reach plan.target := by
        rcases hOptions with hNone | hAll
        · rw [copyPlan_target hNone hRead]
          exact hs
        · exact hAll plan.target
      have hStays : StaysWithin now reach (Store.withSelected (plan.run now source destination)) :=
        withSelected fun i hi => copyPlan_run hTarget hi source destination
      exact hStays s hs

theorem scan (cursor : Octets) (options : List Octets) :
    StaysWithin now reach (Scan.scan now cursor options) := by
  unfold Scan.scan Scan.scanBy
  split
  · exact answer _
  · exact given fun plan => withSelected fun i hi => count hi (plan.reply Octets.fitsGlob)

theorem restore (key lifetime payload : Octets) (options : List Octets) :
    StaysWithin now reach (Backup.restore now key lifetime payload options) := by
  refine given fun lifetime => given fun plan => ?_
  refine andThen (onKey key _) fun reply => given fun t? => ?_
  cases t? with
  | none => exact answer _
  | some t => exact onKey key _

/-- MSET writes to the selected database alone. -/
theorem writeAll (pairs : List (Octets × Octets)) (s : Store) (hs : reach s.selected) :
    s.Confined now reach (Strings.writeAll pairs s) := by
  induction pairs generalizing s with
  | nil => exact .refl now reach s
  | cons e pairs ih =>
      have hFirst :
          s.Confined now reach (s.setEntry s.selected e.1 (some { value := .string e.2 })) :=
        .setDatabase hs _
      exact hFirst.trans (ih _ (hFirst.selected ▸ hs))

theorem mset (words : List Octets) : StaysWithin now reach (Strings.mset words) := by
  unfold Strings.mset
  split
  · exact answer _
  · exact writeAll _

theorem hset (key : Octets) (words : List Octets) :
    StaysWithin now reach (Hashes.hset now key words) := by
  unfold Hashes.hset
  split
  · exact answer _
  · exact onKey key _

theorem zadd (key : Octets) (words : List Octets) :
    StaysWithin now reach (SortedSets.zadd now key words) := by
  unfold SortedSets.zadd
  split
  · exact answer _
  · exact given fun _ => onKey key _

theorem geoadd (key : Octets) (words : List Octets) :
    StaysWithin now reach (Places.geoadd now key words) := by
  unfold Places.geoadd
  dsimp only
  split
  · exact answer _
  · exact answer _
  · exact given fun _ => onKey key _

theorem load (first code : Octets) : StaysWithin now reach (Libraries.load first code) := by
  unfold Libraries.load
  split
  · exact answer _
  · refine withLibraries fun libraries => ?_
    dsimp only
    split
    · exact given fun _ => answer _
    · exact relabel _ _

theorem restoreLibraries (payload : Octets) (policy? : Option Octets) :
    StaysWithin now reach (Libraries.restore payload policy?) := by
  unfold Libraries.restore Libraries.restoreBy
  split
  · exact answer _
  · exact withLibraries fun _ => given fun libraries => relabel libraries _
  · exact answer _

end StaysWithin

/-- What may keep a command from staying within reach: SELECT is not one that does, and
MOVE and COPY with a database named do so only if all databases are within reach. -/
structure Within (reach : Nat → Prop) (t : CommandType) (args : List Octets) : Prop where
  select : t ≠ .select
  move : t = .move → ∀ i, reach i
  copy : t = .copy → (∀ w ∈ args.drop 2, Keyword.ofOctets? w ≠ some .db) ∨ ∀ i, reach i

/-- The step of a command keeps to the databases within reach, whatever it does there. -/
theorem step_staysWithin {now : Float} {reach : Nat → Prop} {t : CommandType}
    {args : List Octets} (h : Within reach t args) : StaysWithin now reach (step now t args) := by
  unfold Store.step
  split
  · exact .answer _
  · exact .answer _
  · exact absurd rfl h.select
  · exact .info
  · exact .withSelected fun i hi => .count hi fun db => .ok (Datum.int db.size)
  · exact .flushdb
  · exact .countKeys _ _
  · exact .countKeys _ _
  · exact .given fun _ => .onKey _ _
  · exact .onKey _ _
  · exact .onKey _ _
  · exact .onKey _ _
  · exact .rename _ _
  · exact .move (h.move rfl) _ _
  · exact .copy (h.copy rfl) _ _
  · exact .scan _ _
  · exact .onKey _ _
  · exact .restore _ _ _ _
  · exact .given fun _ => .onKey _ _
  · exact .onKey _ _
  · exact .onKey _ _
  · exact .onKey _ _
  · exact .onKey _ _
  · exact .given fun _ => .onKey _ _
  · exact .onKey _ _
  · exact .given fun _ => .onKey _ _
  · exact .mset _
  · exact .listKeys _ _
  · exact .onKey _ _
  · exact .hset _ _
  · exact .onKey _ _
  · exact .onKey _ _
  · exact .onKey _ _
  · exact .onKey _ _
  · exact .onKey _ _
  · exact .onKey _ _
  · exact .onKey _ _
  · exact .onKey _ _
  · exact .onKey _ _
  · exact .onKey _ _
  · exact .onKey _ _
  · exact .given fun _ => .onKey _ _
  · exact .onKey _ _
  · exact .onKey _ _
  · exact .onKey _ _
  · exact .onKey _ _
  · exact .onKey _ _
  · exact .zadd _ _
  · exact .onKey _ _
  · exact .onKey _ _
  · exact .onKey _ _
  · exact .given fun _ => .onKey _ _
  · exact .given fun _ => .onKey _ _
  · exact .given fun _ => .onKey _ _
  · exact .geoadd _ _
  · exact .load _ _
  · exact .relabel _ _
  · exact .withLibraries fun _ => .answer _
  · exact .restoreLibraries _ _
  · exact .withLibraries fun _ => .answer _
  · exact .withLibraries fun _ => .answer _
  · exact .answer _

/-- A type of command keeps to the databases within its reach, with any arguments. -/
theorem runType_staysWithin {now : Float} {reach : Nat → Prop} {t : CommandType}
    {args : List Octets} (h : Within reach t args) :
    StaysWithin now reach (runType now t args) := by
  intro s hs
  unfold runType
  split
  · exact step_staysWithin h s hs
  · exact .refl now reach s

end Store

end BatchStore
