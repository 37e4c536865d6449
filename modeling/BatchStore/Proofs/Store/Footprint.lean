import BatchStore.Proofs.Store.Effects
import BatchStore.Proofs.Store.Request

/-!
# The footprint of a command

The arguments of a keyed command name keys, and with them `Site`s: a key in the selected database,
for MOVE and COPY also in the database that is named. The sites of a command are its footprint.

A command keeps to its footprint in two ways, and `KeepsTo` says both of an act. Outside of the
footprint it changes nothing: not the other entries, not the libraries, not the selection. And it
looks at nothing outside: on two stores that agree in the entries of the footprint, in the selected
database and in the number of databases, it answers the same and leaves the same entries there.
The acts of the store are put together from few pieces, each piece keeps to the sites that it is
given, and so does a command (`step_keepsTo`, `run_keepsTo`).
-/

namespace BatchStore

/-- A key of a database, by the number of the database. -/
abbrev Site := Nat × Octets

/-- Whether a type of command is about keys that its arguments name. -/
def CommandType.isKeyed : CommandType → Bool
  | .ping | .echo | .select | .info | .dbsize | .flushdb | .customCommand | .scan
  | .functionLoad | .functionFlush | .functionDump | .functionRestore | .fcall
  | .fcallReadonly => false
  | _ => true

namespace Store

/-- The database that COPY writes to: the one that its options name last, or the selected one. -/
def copyTarget (s : Store) (options : List Octets) : Nat :=
  match Keys.CopyPlan.read s { target := s.selected } options with
  | .ok plan => plan.target
  | .error _ => s.selected

/-- The sites that the arguments of a keyed command name. -/
def footprint (s : Store) : CommandType → List Octets → List Site
  | .del, keys | .exists, keys | .mget, keys => keys.map fun key => (s.selected, key)
  | .mset, words => ((pairUp words).getD []).map fun e => (s.selected, e.1)
  | .rename, key :: newKey :: _ => [(s.selected, key), (s.selected, newKey)]
  | .move, key :: index :: _ =>
    match (readInt index).bind s.index? with
    | .ok target => [(s.selected, key), (target, key)]
    | .error _ => [(s.selected, key)]
  | .copy, source :: destination :: options =>
    [(s.selected, source), (s.copyTarget options, destination)]
  | _, key :: _ => [(s.selected, key)]
  | _, [] => []

end Store

/-- The footprint of a command in a store, if it is a keyed one. The words of a custom command
spell its type. -/
def Command.footprint? (s : Store) (c : Command) : Option (List Site) :=
  (c.request?.filter fun r => r.1.isKeyed).map fun r => s.footprint r.1 r.2

namespace Store

/-! ## Stores compared at some sites -/

/-- In two stores, the same database of as many is selected. -/
structure SameSelection (s t : Store) : Prop where
  selected : s.selected = t.selected
  count : s.databases.length = t.databases.length

/-- Two stores that are the same as far as some sites go. -/
structure AgreeOn (sites : List Site) (s t : Store) : Prop extends SameSelection s t where
  held : ∀ x ∈ sites, s.held? x.1 x.2 = t.held? x.1 x.2

/-- The second store is the first, but for what some sites hold. -/
structure KeptOutside (sites : List Site) (s t : Store) : Prop extends SameFrame s t where
  held : ∀ x, x ∉ sites → s.held? x.1 x.2 = t.held? x.1 x.2

theorem SameSelection.trans {s t u : Store} (hst : s.SameSelection t) (htu : t.SameSelection u) :
    s.SameSelection u :=
  ⟨hst.selected.trans htu.selected, hst.count.trans htu.count⟩

theorem SameFrame.sameSelection {s t : Store} (h : s.SameFrame t) : s.SameSelection t :=
  ⟨h.selected, h.count⟩

/-- The footprint depends on the selection alone. -/
theorem footprint_congr {s t : Store} (h : s.SameSelection t) (c : CommandType)
    (args : List Octets) : s.footprint c args = t.footprint c args := by
  unfold footprint copyTarget
  rw [h.selected, Scripted.index?_congr h.count, Scripted.copyPlan_read_congr h.count]

/-- The footprint of a command, if it has one, depends on the selection alone. -/
theorem footprint?_congr {s t : Store} (h : s.SameSelection t) (c : Command) :
    c.footprint? s = c.footprint? t := by
  unfold Command.footprint?
  simp only [footprint_congr h]

section Sites

variable {sites : List Site} {s t u : Store}

namespace AgreeOn

/-- At a site that they agree in, two stores show the same entry. -/
theorem live? (h : s.AgreeOn sites t) (now : Float) {i : Nat} {key : Octets}
    (hSite : (i, key) ∈ sites) : s.live? now i key = t.live? now i key := by
  rw [live?_eq_shown?, live?_eq_shown?, h.held _ hSite]

/-- An expired key at a site is taken out of both stores or of neither. -/
theorem settle (h : s.AgreeOn sites t) (now : Float) {i : Nat} {key : Octets}
    (hSite : (i, key) ∈ sites) : (s.settle now i key).AgreeOn sites (t.settle now i key) := by
  refine ⟨⟨h.selected, ?_⟩, fun x hx => ?_⟩
  · rw [length_settle, length_settle, h.count]
  · rw [held?_settle_eq, held?_settle_eq, h.held x hx, h.held _ hSite]

/-- The same entry written to both stores leaves them agreed. -/
theorem setEntry (h : s.AgreeOn sites t) (i : Nat) (key : Octets) (e? : Option Entry) :
    (s.setEntry i key e?).AgreeOn sites (t.setEntry i key e?) := by
  refine ⟨⟨h.selected, ?_⟩, fun x hx => ?_⟩
  · rw [length_setEntry, length_setEntry, h.count]
  · rw [held?_setEntry, held?_setEntry, h.held x hx, h.count]

end AgreeOn

namespace KeptOutside

theorem refl (sites : List Site) (s : Store) : s.KeptOutside sites s := ⟨.refl s, fun _ _ => rfl⟩

/-- What is kept outside of the sites twice is kept altogether. -/
theorem trans (hst : s.KeptOutside sites t) (htu : t.KeptOutside sites u) :
    s.KeptOutside sites u :=
  ⟨hst.toSameFrame.trans htu.toSameFrame, fun x hx => (hst.held x hx).trans (htu.held x hx)⟩

/-- Taking an expired key out at a site changes nothing elsewhere. -/
theorem settle (s : Store) (now : Float) {i : Nat} {key : Octets} (hSite : (i, key) ∈ sites) :
    s.KeptOutside sites (s.settle now i key) := by
  refine ⟨(sameFrame_setDatabase s i _).symm, fun x hx => ?_⟩
  have hOther : ¬ (x.1 = i ∧ x.2 = key) := by
    rintro ⟨rfl, rfl⟩
    exact hx hSite
  rw [held?_settle_eq, if_neg hOther]

/-- Writing an entry at a site changes nothing elsewhere. -/
theorem setEntry (s : Store) {i : Nat} {key : Octets} (hSite : (i, key) ∈ sites)
    (e? : Option Entry) : s.KeptOutside sites (s.setEntry i key e?) := by
  refine ⟨(sameFrame_setDatabase s i _).symm, fun x hx => ?_⟩
  have hOther : ¬ (x.1 = i ∧ i < s.databases.length ∧ x.2 = key) := by
    rintro ⟨rfl, -, rfl⟩
    exact hx hSite
  rw [held?_setEntry, if_neg hOther]

end KeptOutside

end Sites

/-! ## Acts that keep to some sites -/

/-- An act that changes nothing outside of some sites and looks at nothing there, in stores with
the selection of `r`. Nor does it write a key twice. -/
structure KeepsTo (r : Store) (sites : List Site) {α : Type} (p : Act α) : Prop where
  outside : ∀ s, r.SameSelection s → s.KeptOutside sites (p s).2
  inside : ∀ s t, r.SameSelection s → s.AgreeOn sites t →
    (p s).1 = (p t).1 ∧ (p s).2.AgreeOn sites (p t).2
  apart : ∀ s, r.SameSelection s → s.KeysApart → (p s).2.KeysApart

namespace KeepsTo

variable {r : Store} {sites : List Site} {now : Float} {α β : Type}

theorem answer (x : Except Halt α) : KeepsTo r sites fun s => (x, s) :=
  ⟨fun s _ => .refl sites s, fun _ _ _ h => ⟨rfl, h⟩, fun _ _ h => h⟩

/-- Acts that keep to the sites do so one after another: the first leaves two stores agreed for the
second. -/
theorem andThen {first : Act α} {next : α → Act β} (hFirst : KeepsTo r sites first)
    (hNext : ∀ a, KeepsTo r sites (next a)) : KeepsTo r sites (Store.andThen first next) := by
  constructor
  · intro s hs
    have hKept := hFirst.outside s hs
    unfold Store.andThen
    rcases hRun : first s with ⟨h | a, s'⟩ <;> rw [hRun] at hKept
    · exact hKept
    · exact hKept.trans ((hNext a).outside s' (hs.trans hKept.sameSelection))
  · intro s t hs hAgree
    have hKept := hFirst.outside s hs
    obtain ⟨hSame, hAfter⟩ := hFirst.inside s t hs hAgree
    unfold Store.andThen
    rcases hRun : first s with ⟨x, s'⟩
    rcases hRun' : first t with ⟨y, t'⟩
    rw [hRun] at hKept hSame hAfter
    rw [hRun'] at hSame hAfter
    obtain rfl : x = y := hSame
    cases x with
    | error h => exact ⟨rfl, hAfter⟩
    | ok a => exact (hNext a).inside s' t' (hs.trans hKept.sameSelection) hAfter
  · intro s hs hApart
    have hKept := hFirst.outside s hs
    have hAfter := hFirst.apart s hs hApart
    unfold Store.andThen
    rcases hRun : first s with ⟨h | a, s'⟩ <;> rw [hRun] at hKept hAfter
    · exact hAfter
    · exact (hNext a).apart s' (hs.trans hKept.sameSelection) hAfter

/-- A check before an act looks at no store. -/
theorem given {x : Except Halt α} {next : α → Act β} (hNext : ∀ a, KeepsTo r sites (next a)) :
    KeepsTo r sites (Store.given x next) :=
  andThen (answer x) hNext

/-- An act that is chosen by the selection. -/
theorem consult (next : Store → Act α) (hSame : ∀ s, r.SameSelection s → next s = next r)
    (hNext : KeepsTo r sites (next r)) : KeepsTo r sites fun s => next s s := by
  constructor
  · intro s hs
    show s.KeptOutside sites (next s s).2
    rw [hSame s hs]
    exact hNext.outside s hs
  · intro s t hs hAgree
    show (next s s).1 = (next t t).1 ∧ (next s s).2.AgreeOn sites (next t t).2
    rw [hSame s hs, hSame t (hs.trans hAgree.toSameSelection)]
    exact hNext.inside s t hs hAgree
  · intro s hs hApart
    show (next s s).2.KeysApart
    rw [hSame s hs]
    exact hNext.apart s hs hApart

/-- Two stores that agree have the same database selected. -/
theorem withSelected {next : Nat → Act α} (hNext : KeepsTo r sites (next r.selected)) :
    KeepsTo r sites (Store.withSelected next) :=
  consult (fun s => next s.selected) (fun s hs => by rw [hs.selected]) hNext

/-- Looking a key up at a site shows the same in two stores that agree. -/
theorem lookUp {i : Nat} {key : Octets} (hSite : (i, key) ∈ sites) {next : Option Entry → Act α}
    (hNext : ∀ seen, KeepsTo r sites (next seen)) :
    KeepsTo r sites (Store.lookUp now i key next) := by
  constructor
  · intro s hs
    have hKept : s.KeptOutside sites (s.settle now i key) := .settle s now hSite
    exact hKept.trans ((hNext _).outside _ (hs.trans hKept.sameSelection))
  · intro s t hs hAgree
    have hKept : s.KeptOutside sites (s.settle now i key) := .settle s now hSite
    show (next _ _).1 = (next _ _).1 ∧ (next _ _).2.AgreeOn sites (next _ _).2
    rw [← hAgree.live? now hSite]
    exact (hNext _).inside _ _ (hs.trans hKept.sameSelection) (hAgree.settle now hSite)
  · intro s hs hApart
    have hKept : s.KeptOutside sites (s.settle now i key) := .settle s now hSite
    exact (hNext _).apart _ (hs.trans hKept.sameSelection) (hApart.settle now i key)

/-- A write, and what is done behind it. -/
theorem write {i : Nat} {key : Octets} (hSite : (i, key) ∈ sites) (e? : Option Entry)
    {next : Act α} (hNext : KeepsTo r sites next) :
    KeepsTo r sites fun s => next (s.setEntry i key e?) := by
  have hKept (s : Store) : s.KeptOutside sites (s.setEntry i key e?) := .setEntry s hSite e?
  constructor
  · intro s hs
    exact (hKept s).trans (hNext.outside _ (hs.trans (hKept s).sameSelection))
  · intro s t hs hAgree
    exact hNext.inside _ _ (hs.trans (hKept s).sameSelection) (hAgree.setEntry i key e?)
  · intro s hs hApart
    exact hNext.apart _ (hs.trans (hKept s).sameSelection) (hApart.setEntry i key e?)

/-- A step on a key at a site writes there alone, whatever the step. -/
theorem onKeyIn {i : Nat} {key : Octets} (hSite : (i, key) ∈ sites) (step : KeyStep) :
    KeepsTo r sites (Store.onKeyIn now i key step) :=
  lookUp hSite fun _ => given fun a => write hSite a.2 (answer (.ok a.1))

/-- A command on one key of the selected database keeps to that site. -/
theorem onKey {key : Octets} (hSite : (r.selected, key) ∈ sites) (step : KeyStep) :
    KeepsTo r sites (Store.onKey now key step) :=
  withSelected (onKeyIn hSite step)

/-- A command on several keys keeps to their sites. -/
theorem onEach {keys : List Octets} (hSites : ∀ key ∈ keys, (r.selected, key) ∈ sites)
    (step : KeyStep) : KeepsTo r sites (Store.onEach now step keys) := by
  induction keys with
  | nil => exact answer (.ok [])
  | cons key keys ih =>
      have hRest := ih fun k hk => hSites k (List.mem_cons_of_mem key hk)
      exact andThen (onKey (hSites key List.mem_cons_self) step) fun reply =>
        andThen hRest fun replies => answer (.ok (reply :: replies))

theorem countKeys {keys : List Octets} (hSites : ∀ key ∈ keys, (r.selected, key) ∈ sites)
    (step : KeyStep) : KeepsTo r sites (Store.countKeys now step keys) :=
  andThen (onEach hSites step) fun replies => answer (.ok (Datum.int (total replies)))

theorem listKeys {keys : List Octets} (hSites : ∀ key ∈ keys, (r.selected, key) ∈ sites)
    (step : KeyStep) : KeepsTo r sites (Store.listKeys now step keys) :=
  andThen (onEach hSites step) fun replies => answer (.ok (Datum.list replies))

/-! ## The commands -/

/-- RENAME keeps to the old name and the new one. -/
theorem rename {key newKey : Octets} (hKey : (r.selected, key) ∈ sites)
    (hNew : (r.selected, newKey) ∈ sites) : KeepsTo r sites (Keys.rename now key newKey) := by
  refine withSelected (lookUp hKey fun seen => ?_)
  cases seen with
  | none => exact answer _
  | some e => exact write hKey none (write hNew (some e) (answer _))

/-- MOVE keeps to the key in the two databases. -/
theorem moveTo {target i : Nat} {key : Octets} (hTarget : (target, key) ∈ sites)
    (hKey : (i, key) ∈ sites) : KeepsTo r sites (Keys.moveTo now key target i) := by
  unfold Keys.moveTo
  split
  · exact answer _
  · refine lookUp hKey fun seen => ?_
    cases seen with
    | none => exact answer _
    | some e =>
        refine lookUp hTarget fun taken => ?_
        cases taken with
        | some _ => exact answer _
        | none => exact write hTarget (some e) (write hKey none (answer _))

/-- The index in MOVE is read by the number of databases, so that two stores agree in what it
names. -/
theorem move {key index : Octets} (hKey : (r.selected, key) ∈ sites)
    (hTarget : ∀ target, (readInt index).bind r.index? = .ok target → (target, key) ∈ sites) :
    KeepsTo r sites (Keys.move now key index) := by
  refine consult (fun s => Store.given ((readInt index).bind s.index?) fun target =>
    Store.withSelected (Keys.moveTo now key target)) (fun s hs => ?_) ?_
  · rw [Scripted.index?_congr hs.count]
  · cases hIndex : (readInt index).bind r.index? with
    | error h => exact answer _
    | ok target => exact withSelected (moveTo (hTarget target hIndex) hKey)

/-- COPY keeps to its source and its destination. -/
theorem copyPlan_run {plan : Keys.CopyPlan} {source destination : Octets} {i : Nat}
    (hSource : (i, source) ∈ sites) (hDestination : (plan.target, destination) ∈ sites) :
    KeepsTo r sites (plan.run now source destination i) := by
  unfold Keys.CopyPlan.run
  split
  · exact answer _
  · refine lookUp hSource fun seen => ?_
    cases seen with
    | none => exact answer _
    | some e =>
        refine lookUp hDestination fun taken => ?_
        by_cases hTaken : (taken.isSome && !plan.replace) = true
        · simp only [hTaken, if_true]
          exact answer _
        · simp only [hTaken]
          exact write hDestination (some e) (answer _)

/-- The options of COPY name its destination in the same database of two stores that agree. -/
theorem copy {source destination : Octets} {options : List Octets}
    (hSource : (r.selected, source) ∈ sites)
    (hDestination : (r.copyTarget options, destination) ∈ sites) :
    KeepsTo r sites (Keys.copy now source destination options) := by
  refine consult (fun s => Store.given (Keys.CopyPlan.read s { target := s.selected } options)
    fun plan => Store.withSelected (plan.run now source destination)) (fun s hs => ?_) ?_
  · rw [hs.selected, Scripted.copyPlan_read_congr hs.count]
  · cases hRead : Keys.CopyPlan.read r { target := r.selected } options with
    | error h => exact answer _
    | ok plan =>
        have hTarget : r.copyTarget options = plan.target := by
          unfold copyTarget
          rw [hRead]
        rw [hTarget] at hDestination
        exact withSelected (copyPlan_run hSource hDestination)

theorem restore {key : Octets} (hKey : (r.selected, key) ∈ sites) (lifetime payload : Octets)
    (options : List Octets) :
    KeepsTo r sites (Backup.restore now key lifetime payload options) := by
  refine given fun lifetime => given fun plan => ?_
  refine andThen (onKey hKey _) fun reply => given fun t? => ?_
  cases t? with
  | none => exact answer _
  | some t => exact onKey hKey _

/-- MSET keeps to the keys of its pairs. -/
theorem writeAll {pairs : List (Octets × Octets)}
    (hKeys : ∀ e ∈ pairs, (r.selected, e.1) ∈ sites) :
    KeepsTo r sites fun s => (.ok okReply, Strings.writeAll pairs s) := by
  induction pairs with
  | nil => exact answer _
  | cons e pairs ih =>
      have hRest := ih fun e' he' => hKeys e' (List.mem_cons_of_mem e he')
      show KeepsTo r sites (Store.withSelected fun i s =>
        (.ok okReply, Strings.writeAll pairs (s.setEntry i e.1 (some { value := .string e.2 }))))
      exact withSelected (write (hKeys e List.mem_cons_self) _ hRest)

theorem mset {words : List Octets}
    (hKeys : ∀ e ∈ (pairUp words).getD [], (r.selected, e.1) ∈ sites) :
    KeepsTo r sites (Strings.mset words) := by
  unfold Strings.mset
  cases hPairs : pairUp words with
  | none => exact answer _
  | some pairs =>
      rw [hPairs] at hKeys
      exact writeAll hKeys

theorem hset {key : Octets} (hKey : (r.selected, key) ∈ sites) (words : List Octets) :
    KeepsTo r sites (Hashes.hset now key words) := by
  unfold Hashes.hset
  split
  · exact answer _
  · exact onKey hKey _

theorem zadd {key : Octets} (hKey : (r.selected, key) ∈ sites) (words : List Octets) :
    KeepsTo r sites (SortedSets.zadd now key words) := by
  unfold SortedSets.zadd
  split
  · exact answer _
  · exact given fun _ => onKey hKey _

theorem geoadd {key : Octets} (hKey : (r.selected, key) ∈ sites) (words : List Octets) :
    KeepsTo r sites (Places.geoadd now key words) := by
  unfold Places.geoadd
  dsimp only
  split
  · exact answer _
  · exact answer _
  · exact given fun _ => onKey hKey _

end KeepsTo

/-- The step of a keyed command keeps to its footprint, whatever its arguments. -/
theorem step_keepsTo (r : Store) (now : Float) {t : CommandType} (hKeyed : t.isKeyed = true)
    (args : List Octets) : KeepsTo r (r.footprint t args) (step now t args) := by
  have hHead {x : Site} {xs : List Site} : x ∈ x :: xs := List.mem_cons_self
  have hEach {keys : List Octets} : ∀ key ∈ keys,
      (r.selected, key) ∈ keys.map fun key => (r.selected, key) := fun _ => List.mem_map_of_mem
  unfold Store.step
  split
  · cases hKeyed
  · cases hKeyed
  · cases hKeyed
  · cases hKeyed
  · cases hKeyed
  · cases hKeyed
  · exact .countKeys hEach _
  · exact .countKeys hEach _
  · exact .given fun _ => .onKey hHead _
  · exact .onKey hHead _
  · exact .onKey hHead _
  · exact .onKey hHead _
  · exact .rename hHead (.tail _ hHead)
  · refine .move ?_ fun target hTarget => ?_
    · unfold footprint
      dsimp only
      split <;> exact hHead
    · unfold footprint
      dsimp only
      rw [hTarget]
      exact .tail _ hHead
  · exact .copy hHead (.tail _ hHead)
  · cases hKeyed
  · exact .onKey hHead _
  · exact .restore hHead _ _ _
  · exact .given fun _ => .onKey hHead _
  · exact .onKey hHead _
  · exact .onKey hHead _
  · exact .onKey hHead _
  · exact .onKey hHead _
  · exact .given fun _ => .onKey hHead _
  · exact .onKey hHead _
  · exact .given fun _ => .onKey hHead _
  · exact .mset fun e he => List.mem_map_of_mem he
  · exact .listKeys hEach _
  · exact .onKey hHead _
  · exact .hset hHead _
  · exact .onKey hHead _
  · exact .onKey hHead _
  · exact .onKey hHead _
  · exact .onKey hHead _
  · exact .onKey hHead _
  · exact .onKey hHead _
  · exact .onKey hHead _
  · exact .onKey hHead _
  · exact .onKey hHead _
  · exact .onKey hHead _
  · exact .onKey hHead _
  · exact .given fun _ => .onKey hHead _
  · exact .onKey hHead _
  · exact .onKey hHead _
  · exact .onKey hHead _
  · exact .onKey hHead _
  · exact .onKey hHead _
  · exact .zadd hHead _
  · exact .onKey hHead _
  · exact .onKey hHead _
  · exact .onKey hHead _
  · exact .given fun _ => .onKey hHead _
  · exact .given fun _ => .onKey hHead _
  · exact .given fun _ => .onKey hHead _
  · exact .geoadd hHead _
  · cases hKeyed
  · cases hKeyed
  · cases hKeyed
  · cases hKeyed
  · cases hKeyed
  · cases hKeyed
  · exact .answer _

/-- A keyed command keeps to its footprint. -/
theorem run_keepsTo (now : Float) {s : Store} {c : Command} {sites : List Site}
    (hKeyed : c.footprint? s = some sites) : KeepsTo s sites (run now c) := by
  obtain ⟨⟨t, args⟩, hRequest, rfl⟩ := Option.map_eq_some_iff.1 hKeyed
  obtain ⟨hRequest, hType⟩ := Option.filter_eq_some_iff.1 hRequest
  have hRun : run now c = runType now t args := funext fun u => run_of_request? hRequest u
  rw [hRun]
  unfold runType
  by_cases hAdmits : t.admits args.length = true
  · simp only [hAdmits, if_true]
    exact step_keepsTo s now hType args
  · simp only [hAdmits]
    exact .answer _

end Store

end BatchStore
