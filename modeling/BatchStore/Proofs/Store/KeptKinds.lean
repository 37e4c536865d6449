import BatchStore.Proofs.Store.Kinds
import BatchStore.Proofs.Store.Transfers

/-!
# Keys keep their kind

A key that shows may be written to, go, or have another value put in its place. Only the last can
change the kind of its value, and few commands do it: SET and MSET, RESTORE and COPY if they are to
replace, and RENAME. `Overwrites` says where.

All others keep the kind of a key as long as it shows, for one of four reasons. A command for values
of a kind leaves none but this kind (`OnKind.keepsKind`). What is carried over goes where nothing
shows (`TransferEnds.keepsKind`), and so does what is restored. The rest of the commands put no new
value anywhere: after them only what showed before shows, with values of the same kind (`Dwindled`).
And outside of its footprint no command writes at all. `kinds_never_mix` has both sides, what is
refused and what is kept.
-/

namespace BatchStore

/-- Whether commands of a type put no new value anywhere: they are not for values of a kind, and do
not set, restore or carry one over. -/
def CommandType.putsNothing : CommandType → Bool
  | .set | .mset | .restore | .rename | .move | .copy => false
  | t => t.kind?.isNone

/-! ## Steps that put no new value anywhere -/

/-- A step that leaves what it saw, perhaps with another value of its kind, or nothing. -/
def KeyStep.Dwindles (step : KeyStep) : Prop :=
  ∀ seen reply after, step seen = .ok (reply, some after) →
    ∃ e, seen = some e ∧ after.value.kind = e.value.kind

/-- A step that leaves what it saw. -/
theorem KeyStep.dwindles_of_keep {step : KeyStep}
    (h : ∀ seen reply after?, step seen = .ok (reply, after?) → after? = seen) : step.Dwindles :=
  fun seen reply after hOk => ⟨after, (h seen reply _ hOk).symm, rfl⟩

namespace Keys

theorem delete_dwindles : KeyStep.Dwindles delete := by
  rintro seen reply after ⟨⟩

theorem exists?_dwindles : KeyStep.Dwindles exists? :=
  KeyStep.dwindles_of_keep fun _ _ _ hOk => by cases hOk; rfl

/-- EXPIRE takes the key away or gives it another deadline, and leaves its value. -/
theorem expireStep_dwindles (now : Float) (seconds : Int) :
    KeyStep.Dwindles (expireStep now seconds) := by
  intro seen reply after hOk
  unfold expireStep at hOk
  split at hOk
  · cases hOk
  · rename_i e
    split at hOk
    · cases hOk
    · obtain ⟨span, -, hAfter⟩ := ok_of_bind hOk
      cases hAfter
      exact ⟨e, rfl, rfl⟩

theorem ttl_dwindles (now : Float) : KeyStep.Dwindles (ttl now) := by
  refine KeyStep.dwindles_of_keep fun seen reply after? hOk => ?_
  unfold ttl at hOk
  split at hOk
  · cases hOk
    rfl
  · split at hOk
    · cases hOk
      rfl
    · obtain ⟨seconds, -, hAfter⟩ := ok_of_bind hOk
      cases hAfter
      rfl

theorem persist_dwindles : KeyStep.Dwindles persist := by
  intro seen reply after hOk
  have hAfter : seen.map (fun e => { e with deadline? := none }) = some after :=
    congrArg Prod.snd (Except.ok.inj hOk)
  obtain ⟨e, hSeen, rfl⟩ := Option.map_eq_some_iff.1 hAfter
  exact ⟨e, hSeen, rfl⟩

theorem type_dwindles : KeyStep.Dwindles type :=
  KeyStep.dwindles_of_keep fun _ _ _ hOk => by cases hOk; rfl

end Keys

theorem Backup.dump_dwindles : KeyStep.Dwindles dump :=
  KeyStep.dwindles_of_keep fun _ _ _ hOk => by cases hOk; rfl

theorem Strings.peek_dwindles : KeyStep.Dwindles peek :=
  KeyStep.dwindles_of_keep fun _ _ _ hOk => by cases hOk; rfl

namespace Store

/-! ## Stores with fewer keys -/

/-- What shows of the second store showed in the first, with a value of the same kind. -/
def Dwindled (now : Float) (s t : Store) : Prop :=
  ∀ i key after, t.live? now i key = some after →
    ∃ e, s.live? now i key = some e ∧ after.value.kind = e.value.kind

/-- If a key shows in both stores, its values are of one kind. -/
def KeepsKind (now : Float) (s t : Store) (x : Site) : Prop :=
  ∀ e after, s.live? now x.1 x.2 = some e → t.live? now x.1 x.2 = some after →
    after.value.kind = e.value.kind

section Stores

variable {now : Float} {s t u : Store} {x : Site}

namespace Dwindled

/-- A store dwindles to itself. -/
theorem refl (now : Float) (s : Store) : s.Dwindled now s := fun _ _ after h => ⟨after, h, rfl⟩

/-- What is still there after two acts was there after the first. -/
theorem trans (hst : s.Dwindled now t) (htu : t.Dwindled now u) : s.Dwindled now u := by
  intro i key after hAfter
  obtain ⟨e, hThere, hKind⟩ := htu i key after hAfter
  obtain ⟨first, hFirst, hSame⟩ := hst i key e hThere
  exact ⟨first, hFirst, hKind.trans hSame⟩

/-- Stores that show the same dwindle to each other. -/
theorem of_live (h : ∀ i key, t.live? now i key = s.live? now i key) : s.Dwindled now t :=
  fun i key after hAfter => ⟨after, h i key ▸ hAfter, rfl⟩

theorem of_alike (h : t.Alike now s) : s.Dwindled now t := of_live h.live

theorem settle (now : Float) (s : Store) (i : Nat) (key : Octets) :
    s.Dwindled now (s.settle now i key) := of_live fun j k => live?_settle s now i j key k

/-- A write over what shows, with a value of its kind. -/
theorem setEntry {i : Nat} {key : Octets} {e? : Option Entry}
    (h : ∀ after, e? = some after →
      ∃ e, s.live? now i key = some e ∧ after.value.kind = e.value.kind) :
    s.Dwindled now (s.setEntry i key e?) := by
  intro j k after hAfter
  rw [live?_setEntry] at hAfter
  split at hAfter
  · rename_i hHere
    obtain ⟨rfl, -, rfl⟩ := hHere
    exact h after (Option.filter_eq_some_iff.1 hAfter).1
  · exact ⟨after, hAfter, rfl⟩

/-- Where a store dwindles, a live key keeps its kind for as long as it lives. -/
theorem keepsKind (h : s.Dwindled now t) (x : Site) : s.KeepsKind now t x := by
  intro e after hLive hAfter
  obtain ⟨first, hFirst, hKind⟩ := h x.1 x.2 after hAfter
  rw [hLive] at hFirst
  cases hFirst
  exact hKind

end Dwindled

/-- Where the same shows, the kind is kept. -/
theorem keepsKind_of_live (h : t.live? now x.1 x.2 = s.live? now x.1 x.2) :
    s.KeepsKind now t x := by
  intro e after hLive hAfter
  rw [h, hLive] at hAfter
  cases hAfter
  rfl

/-- A key at which the same entry is held keeps its kind. -/
theorem keepsKind_of_held (h : s.held? x.1 x.2 = t.held? x.1 x.2) : s.KeepsKind now t x :=
  keepsKind_of_live (by rw [live?_eq_shown?, live?_eq_shown?, h])

/-- Where nothing showed, there is no kind to keep. -/
theorem keepsKind_of_none (h : s.live? now x.1 x.2 = none) : s.KeepsKind now t x := by
  intro e after hLive
  rw [h] at hLive
  cases hLive

end Stores

/-! ## Commands that put no new value anywhere -/

/-- An act after which nothing shows that did not, nor with a value of another kind. -/
def Dwindles (now : Float) {α : Type} (p : Act α) : Prop := ∀ s : Store, s.Dwindled now (p s).2

namespace Dwindles

variable {now : Float} {α β : Type}

theorem answer (x : Except Halt α) : Dwindles now fun s => (x, s) := fun s => .refl now s

/-- Acts that let a store dwindle do so one after another. -/
theorem andThen {first : Act α} {next : α → Act β} (hFirst : Dwindles now first)
    (hNext : ∀ a, Dwindles now (next a)) : Dwindles now (Store.andThen first next) := by
  intro s
  have hHere := hFirst s
  unfold Store.andThen
  rcases hRun : first s with ⟨h | a, t⟩ <;> rw [hRun] at hHere
  · exact hHere
  · exact hHere.trans (hNext a t)

theorem given {x : Except Halt α} {next : α → Act β} (hNext : ∀ a, Dwindles now (next a)) :
    Dwindles now (Store.given x next) :=
  andThen (answer x) hNext

theorem withLibraries {next : Table Datum Datum → Act α}
    (hNext : ∀ libraries, Dwindles now (next libraries)) :
    Dwindles now (Store.withLibraries next) := fun s => hNext s.libraries s

/-- A command on one key lets the store dwindle where its step does the entry. -/
theorem onKey {step : KeyStep} (h : step.Dwindles) (key : Octets) :
    Dwindles now (Store.onKey now key step) := by
  intro s
  rcases hStep : step (s.live? now s.selected key) with halt | ⟨reply, e?⟩
  · rw [onKey_error hStep]
    exact .settle now s s.selected key
  · rw [onKey_ok hStep]
    refine (Dwindled.settle now s s.selected key).trans (.setEntry ?_)
    rintro after rfl
    rw [live?_settle]
    exact h _ reply after hStep

theorem onEach {step : KeyStep} (h : step.Dwindles) (keys : List Octets) :
    Dwindles now (Store.onEach now step keys) := by
  induction keys with
  | nil => exact answer _
  | cons key keys ih => exact (onKey h key).andThen fun _ => ih.andThen fun _ => answer _

theorem countKeys {step : KeyStep} (h : step.Dwindles) (keys : List Octets) :
    Dwindles now (Store.countKeys now step keys) := (onEach h keys).andThen fun _ => answer _

theorem listKeys {step : KeyStep} (h : step.Dwindles) (keys : List Octets) :
    Dwindles now (Store.listKeys now step keys) := (onEach h keys).andThen fun _ => answer _

/-- SELECT leaves all entries as they are. -/
theorem select (index : Octets) : Dwindles now (Server.select index) := by
  intro s
  show s.Dwindled now (Store.given _ _ s).2
  cases (readInt index).bind s.index? with
  | error halt => exact .refl now s
  | ok i => exact .of_live fun _ _ => rfl

/-- FLUSHDB leaves no entry of one database, and all entries of the others. -/
theorem flushdb : Dwindles now Server.flushdb := by
  intro s i key after hAfter
  have hShown : (s.setDatabase s.selected .empty).live? now i key = some after := hAfter
  rw [live?_setDatabase] at hShown
  split at hShown
  · cases hShown
  · exact ⟨after, hShown, rfl⟩

/-- Libraries are kept beside the databases. -/
theorem setLibraries (reply : Reply) (f : Table Datum Datum → Table Datum Datum) :
    Dwindles now fun s => (reply, { s with libraries := f s.libraries }) :=
  fun _ => .of_live fun _ _ => rfl

theorem load (first code : Octets) : Dwindles now (Libraries.load first code) := by
  unfold Libraries.load
  split
  · exact answer _
  · refine withLibraries fun libraries => ?_
    dsimp only
    split
    · exact given fun _ => answer _
    · exact setLibraries _ fun _ => _

theorem restoreLibraries (payload : Octets) (policy? : Option Octets) :
    Dwindles now (Libraries.restore payload policy?) := by
  unfold Libraries.restore Libraries.restoreBy
  split
  · exact answer _
  · exact withLibraries fun old => given fun libraries => setLibraries _ fun _ => libraries
  · exact answer _

end Dwindles

/-- Counting keys takes the expired ones out and shows nothing else. -/
theorem scan_dwindled {s : Store} (hs : s.Sound) (now : Float) (cursor : Octets)
    (options : List Octets) : s.Dwindled now (Scan.scan now cursor options s).2 := by
  unfold Scan.scan Scan.scanBy
  cases Number.int? cursor with
  | none => exact .refl now s
  | some n =>
      show s.Dwindled now (given _ _ s).2
      cases Scan.Plan.read { cursor := n } options with
      | error halt => exact .refl now s
      | ok plan => exact .of_alike (.settleAll hs now s.selected)

/-- After a command that puts no new value anywhere, nothing shows that did not. -/
theorem step_dwindled {s : Store} (hs : s.Sound) (now : Float) {t : CommandType}
    (h : t.putsNothing = true) (args : List Octets) : s.Dwindled now (step now t args s).2 := by
  have hOf {p : Step} (hp : Dwindles now p) : s.Dwindled now (p s).2 := hp s
  cases t <;> cases h
  case ping.refl => exact .refl now s
  case echo.refl => rcases args with _ | ⟨_, _ | _⟩ <;> exact .refl now s
  case select.refl =>
    match args with
    | [index] => exact hOf (.select index)
    | [] | _ :: _ :: _ => exact .refl now s
  case info.refl => exact .of_alike (.sweep hs now)
  case dbsize.refl => exact .of_alike (.settleAll hs now s.selected)
  case flushdb.refl => exact hOf .flushdb
  case customCommand.refl => exact .refl now s
  case del.refl => exact hOf (.countKeys Keys.delete_dwindles args)
  case exists.refl => exact hOf (.countKeys Keys.exists?_dwindles args)
  case expire.refl =>
    match args with
    | [key, _] => exact hOf (.given fun n => .onKey (Keys.expireStep_dwindles now n) key)
    | [] | [_] | _ :: _ :: _ :: _ => exact .refl now s
  case ttl.refl =>
    match args with
    | [key] => exact hOf (.onKey (Keys.ttl_dwindles now) key)
    | [] | _ :: _ :: _ => exact .refl now s
  case persist.refl =>
    match args with
    | [key] => exact hOf (.onKey Keys.persist_dwindles key)
    | [] | _ :: _ :: _ => exact .refl now s
  case type.refl =>
    match args with
    | [key] => exact hOf (.onKey Keys.type_dwindles key)
    | [] | _ :: _ :: _ => exact .refl now s
  case scan.refl =>
    match args with
    | cursor :: options => exact scan_dwindled hs now cursor options
    | [] => exact .refl now s
  case dump.refl =>
    match args with
    | [key] => exact hOf (.onKey Backup.dump_dwindles key)
    | [] | _ :: _ :: _ => exact .refl now s
  case mget.refl => exact hOf (.listKeys Strings.peek_dwindles args)
  case functionLoad.refl =>
    match args with
    | first :: rest => exact hOf (.load first _)
    | [] => exact .refl now s
  case functionFlush.refl => exact .of_live fun _ _ => rfl
  case functionDump.refl => exact .refl now s
  case functionRestore.refl =>
    match args with
    | payload :: policy => exact hOf (.restoreLibraries payload policy.head?)
    | [] => exact .refl now s
  case fcall.refl | fcallReadonly.refl =>
    match args with
    | _ :: _ :: _ => exact .refl now s
    | [] | [_] => exact .refl now s

/-! ## Commands that put values in the place of others -/

/-- A command of a type with arguments may put a value of another kind at a site: it sets the key,
restores it and is to replace, renames another key to it, or copies to it and is to replace. -/
inductive Overwrites (s : Store) : CommandType → List Octets → Site → Prop where
  | set (key : Octets) (rest : List Octets) : Overwrites s .set (key :: rest) (s.selected, key)
  | mset {words : List Octets} {pairs : List (Octets × Octets)} (hPairs : pairUp words = some pairs)
      {e : Octets × Octets} (hMem : e ∈ pairs) : Overwrites s .mset words (s.selected, e.1)
  | restore (key lifetime payload : Octets) {options : List Octets} {plan : Backup.RestorePlan}
      (hPlan : Backup.RestorePlan.read {} options = .ok plan) (hReplace : plan.replace = true) :
      Overwrites s .restore (key :: lifetime :: payload :: options) (s.selected, key)
  | rename (key newKey : Octets) : Overwrites s .rename [key, newKey] (s.selected, newKey)
  | copy (source destination : Octets) {options : List Octets} {plan : Keys.CopyPlan}
      (hPlan : Keys.CopyPlan.read s { target := s.selected } options = .ok plan)
      (hReplace : plan.replace = true) :
      Overwrites s .copy (source :: destination :: options) (plan.target, destination)

section Kept

variable {now : Float} {s : Store} {t : CommandType} {args : List Octets} {x : Site}

/-- Outside of its footprint a command changes no kind. -/
theorem step_keepsKind_outside (hKeyed : t.isKeyed = true) (hx : x ∉ s.footprint t args) :
    s.KeepsKind now (step now t args s).2 x :=
  keepsKind_of_held (((step_keepsTo s now hKeyed args).outside s ⟨rfl, rfl⟩).held x hx)

/-- A step for values of a kind leaves no other kind. -/
theorem OnKind.keepsKind {K : Value.Kind} {key : Octets} {p : Step} (h : OnKind K now key p)
    (s : Store) (x : Site) : s.KeepsKind now (p s).2 x := by
  obtain ⟨r, hRun⟩ | ⟨step, hStep, hRun⟩ := h s <;> rw [hRun]
  · exact keepsKind_of_live rfl
  · rcases hSeen : step (s.live? now s.selected key) with halt | ⟨reply, e?⟩
    · rw [onKey_error hSeen]
      exact (Dwindled.settle now s s.selected key).keepsKind x
    · rw [onKey_ok hSeen]
      intro e after hLive hAfter
      rw [live?_setEntry] at hAfter
      split at hAfter
      · rename_i hHere
        obtain ⟨hDatabase, -, hKey⟩ := hHere
        have hLeft : e? = some after := (Option.filter_eq_some_iff.1 hAfter).1
        rw [hDatabase, hKey] at hLive
        rw [hLive, hLeft] at hSeen
        have hKind : e.value.kind = K := by
          by_contra hOther
          rw [hStep.others e hOther] at hSeen
          cases hSeen
        rw [hStep.leaves hSeen, hKind]
      · rw [live?_settle, hLive] at hAfter
        cases hAfter
        rfl

/-- What is carried over changes a kind only where it replaces what shows. -/
theorem TransferEnds.keepsKind {x? : Option Transfer} {done : Datum} {r : Reply × Store}
    (h : TransferEnds now s x? done r) (x : Site) :
    s.KeepsKind now r.2 x ∨ ∃ y, x? = some y ∧ y.replaces = true ∧ x = y.target := by
  cases h with
  | declined hNot hDone hUntouched =>
    exact .inl ((Dwindled.of_alike hUntouched.alike.symm).keepsKind x)
  | failed hNot hUntouched => exact .inl ((Dwindled.of_alike hUntouched.alike.symm).keepsKind x)
  | @carried y e after hTransfer hGranted hCarried =>
      by_cases hTarget : x = y.target
      · rcases hGranted.free with hReplaces | hFree
        · exact .inr ⟨y, hTransfer, hReplaces, hTarget⟩
        · exact .inl (keepsKind_of_none (hTarget ▸ hFree))
      · left
        by_cases hSource : x = y.source
        · subst hSource
          intro first later hLive hAfter
          rw [live?_eq_shown?, hCarried.left] at hAfter
          split at hAfter
          · rw [hCarried.seen] at hLive
            have hSame : e = later := Option.some.inj (Option.filter_eq_some_iff.1 hAfter).1
            rw [← hSame, Option.some.inj hLive]
          · cases hAfter
        · exact keepsKind_of_held (hCarried.kept.held x (by simp [hSource, hTarget]))

/-- What a transfer replaces, its command overwrites. -/
theorem overwrites_of_transfer {y : Transfer} (hTransfer : s.transfer? t args = some y)
    (hReplaces : y.replaces = true) : s.Overwrites t args y.target := by
  unfold transfer? at hTransfer
  split at hTransfer
  · cases hTransfer
    exact .rename _ _
  · split at hTransfer
    · cases hTransfer
      cases hReplaces
    · cases hTransfer
  · split at hTransfer
    · rename_i plan hPlan
      cases hTransfer
      exact .copy _ _ hPlan hReplaces
    · cases hTransfer
  · cases hTransfer

/-- RESTORE keeps the kind of every key but the one it is told to replace. -/
theorem restore_keepsKind (key lifetime payload : Octets) (options : List Octets) (x : Site) :
    s.KeepsKind now (Backup.restore now key lifetime payload options s).2 x ∨
      s.Overwrites .restore (key :: lifetime :: payload :: options) x := by
  by_cases hHere : x = (s.selected, key)
  · subst hHere
    unfold Backup.restore Backup.restoreBy given andThen
    cases readInt lifetime with
    | error halt => exact .inl (keepsKind_of_live rfl)
    | ok n =>
        cases hPlan : Backup.RestorePlan.read {} options with
        | error halt => exact .inl (keepsKind_of_live rfl)
        | ok plan =>
            cases hReplace : plan.replace with
            | true => exact .inr (.restore key lifetime payload hPlan hReplace)
            | false =>
                left
                cases hLive : s.live? now s.selected key with
                | none => exact keepsKind_of_none hLive
                | some e =>
                    have hBusy : plan.stepBy Payload.form payload (s.live? now s.selected key) =
                        .error (.refused .busyKey) := by
                      rw [hLive, Backup.RestorePlan.stepBy, hReplace]
                      rfl
                    dsimp only
                    rw [onKey_error hBusy]
                    exact (Dwindled.settle now s s.selected key).keepsKind _
  · have hOutside : x ∉ s.footprint .restore (key :: lifetime :: payload :: options) :=
      fun h => hHere (List.mem_singleton.1 h)
    have hKept : s.KeepsKind now
        (step now .restore (key :: lifetime :: payload :: options) s).2 x :=
      step_keepsKind_outside rfl hOutside
    exact .inl hKept

/-- SET and MSET overwrite whatever they write. -/
theorem set_keepsKind (args : List Octets) (x : Site) :
    s.KeepsKind now (step now .set args s).2 x ∨ s.Overwrites .set args x := by
  by_cases hx : x ∈ s.footprint .set args
  · match args with
    | [] => cases hx
    | key :: rest =>
        rw [List.mem_singleton.1 hx]
        exact .inr (.set key rest)
  · exact .inl (step_keepsKind_outside rfl hx)

/-- MSET keeps the kind of every key but those that it writes. -/
theorem mset_keepsKind (words : List Octets) (x : Site) :
    s.KeepsKind now (step now .mset words s).2 x ∨ s.Overwrites .mset words x := by
  by_cases hx : x ∈ s.footprint .mset words
  · obtain ⟨e, he, rfl⟩ := List.mem_map.1 hx
    cases hPairs : pairUp words with
    | none =>
        rw [hPairs] at he
        cases he
    | some pairs =>
        rw [hPairs] at he
        exact .inr (.mset hPairs he)
  · exact .inl (step_keepsKind_outside rfl hx)

/-- A command for values of a kind that names no key is refused. -/
theorem step_nil_of_kind {K : Value.Kind} (h : t.kind? = some K) :
    step now t [] s = (refuse (.wrongArity t), s) := by
  cases t <;> first | (cases h; done) | rfl

/-- A command that carries no entry from key to key keeps the kind of each key that it does not
overwrite. -/
theorem step_keepsKind (hs : s.Sound) (hCarry : ¬ (t = .rename ∨ t = .move ∨ t = .copy))
    (args : List Octets) (x : Site) :
    s.KeepsKind now (step now t args s).2 x ∨ s.Overwrites t args x := by
  cases hNothing : t.putsNothing with
  | true => exact .inl ((step_dwindled hs now hNothing args).keepsKind x)
  | false =>
      cases hKind : t.kind? with
      | some K =>
          match args with
          | [] => exact .inl (keepsKind_of_live (by rw [step_nil_of_kind hKind]))
          | key :: rest => exact .inl ((step_onKind hKind now key rest).keepsKind s x)
      | none =>
          cases t with
          | set => exact set_keepsKind args x
          | mset => exact mset_keepsKind args x
          | restore =>
              match args with
              | key :: lifetime :: payload :: options =>
                  exact restore_keepsKind key lifetime payload options x
              | [] | [_] | [_, _] => exact .inl (keepsKind_of_live rfl)
          | rename | move | copy => exact absurd (by decide) hCarry
          | _ => first | (cases hNothing; done) | cases hKind

/-- A command keeps the kind of whatever shows after it, but for where it overwrites. -/
theorem run_keepsKind (hs : s.Sound) (hSelected : s.selected < s.databases.length) (now : Float)
    (c : Command) (x : Site) :
    s.KeepsKind now (run now c s).2 x ∨
      ∃ t args, c.request? = some (t, args) ∧ s.Overwrites t args x := by
  cases hRequest : c.request? with
  | none =>
      rw [run_eq, hRequest]
      exact .inl (keepsKind_of_live rfl)
  | some r =>
      obtain ⟨t, args⟩ := r
      by_cases hCarry : t = .rename ∨ t = .move ∨ t = .copy
      · have hEnds := transfer_ends hSelected now hRequest hCarry
        rcases hEnds.keepsKind x with hKept | ⟨y, hTransfer, hReplaces, rfl⟩
        · exact .inl hKept
        · exact .inr ⟨t, args, rfl, overwrites_of_transfer hTransfer hReplaces⟩
      · rw [run_of_request? hRequest, runType]
        split
        · rcases step_keepsKind hs hCarry args x with hKept | hOver
          · exact .inl hKept
          · exact .inr ⟨t, args, rfl, hOver⟩
        · exact .inl (keepsKind_of_live rfl)

end Kept

/-- Values of different kinds do not mix, in any store that submissions lead to and at any reading
of the clock.

* A command for values of a kind is refused by a key that holds a value of another, whatever its
  other arguments are. The key shows the same value with the same deadline, and of the rest of the
  store nothing is gone but expired keys.
* What shows at a key after any command has the kind that showed there before it, unless the command
  overwrites the key. -/
theorem kinds_never_mix {s : Store} (hs : s.Reachable) (now : Float) :
    (∀ (c : Command) (t : CommandType) (K : Value.Kind) (key : Octets) (rest : List Octets)
        (e : Entry), c.request? = some (t, key :: rest) → t.kind? = some K →
      s.live? now s.selected key = some e → e.value.kind ≠ K →
      (∃ r, (run now c s).1 = .error (.refused r)) ∧
        (run now c s).2.live? now s.selected key = some e ∧
        s.Untouched now (run now c s).2) ∧
    ∀ (c : Command) (i : Nat) (key : Octets) (e after : Entry),
      s.live? now i key = some e → (run now c s).2.live? now i key = some after →
      after.value.kind = e.value.kind ∨
        ∃ t args, c.request? = some (t, args) ∧ s.Overwrites t args (i, key) := by
  have hSound := reachable_sound hs
  constructor
  · intro c t K key rest e hRequest hKind hLive hOther
    obtain ⟨r, hReply, hUntouched⟩ := run_refuses_others hSound hRequest hKind hLive hOther
    refine ⟨⟨r, hReply⟩, ?_, hUntouched⟩
    rw [← hUntouched.alike.live, hLive]
  · intro c i key e after hLive hAfter
    exact (run_keepsKind hSound (reachable_selected hs) now c (i, key)).imp_left
      fun hKept => hKept e after hLive hAfter

/-- A hash refuses a command for sorted sets, and is still a hash after a command of its own. -/
theorem kinds_never_mix_hash :
    let hset : Submission := ⟨[⟨.hset, [.text "k", .text "f", .text "v"]⟩], false⟩
    let s := (history run [(0.0, hset)] { databases := [.empty] }).2
    let e : Entry := { value := .hash ⟨[(.octets [102], .octets [118])]⟩ }
    let zadd : Command := ⟨.zadd, [.text "k", .text "1", .text "m"]⟩
    let more : Command := ⟨.hset, [.text "k", .text "g", .text "w"]⟩
    s.Reachable ∧ s.live? 1.0 0 [107] = some e ∧
      (∃ r, (run 1.0 zadd s).1 = .error (.refused r)) ∧
      (run 1.0 zadd s).2.live? 1.0 0 [107] = some e ∧
      ∃ after, (run 1.0 more s).2.live? 1.0 0 [107] = some after ∧
        after.value.kind = .hash := by
  intro hset s e zadd more
  have hReachable : s.Reachable := ⟨1, _, _, rfl, rfl⟩
  have hSelected : s.selected = 0 := by decide +kernel
  have hLive : s.live? 1.0 0 [107] = some e := by decide +kernel
  obtain ⟨hRefused, hKept⟩ := kinds_never_mix hReachable 1.0
  obtain ⟨hReply, hStill, -⟩ := hRefused zadd .zadd .zset [107] [[49], [109]] e rfl rfl
    (hSelected ▸ hLive) (by decide)
  refine ⟨hReachable, hLive, hReply, hSelected ▸ hStill, ?_⟩
  have hAfter : ((run 1.0 more s).2.live? 1.0 0 [107]).isSome = true := by decide +kernel
  obtain ⟨after, hAfter⟩ := Option.isSome_iff_exists.1 hAfter
  refine ⟨after, hAfter, ?_⟩
  rcases hKept more 0 [107] e after hLive hAfter with hKind | ⟨t, args, hRequest, hOver⟩
  · exact hKind
  · cases hRequest
    cases hOver

end Store

end BatchStore
