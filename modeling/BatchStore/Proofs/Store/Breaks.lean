import BatchStore.Proofs.Store.Script
import BatchStore.Proofs.Store.Orderly
import BatchStore.Proofs.Store.Request

/-!
# What may break a command down

`Breaks now s t args f` lists the reasons for which a request may end with a fault `f` in the
store `s`. There is one constructor for each place where a fault can come up:

* a lifetime or a moment that is past the largest double (EXPIRE, SET, GETEX, RESTORE),
* a deadline that is no number of seconds away from the clock (TTL),
* a number that is too long to be written (INCR and its like, the cursor of SCAN),
* octets that are no text where a text is asked for (the type for SCAN, the name of a library
  that is in the way),
* values that a foreign payload brought in: a sorted set that cannot be ranked, libraries whose
  names or code are no octets.

`step_behaves` goes through all commands and finds no other. By the way it finds that a request
leaves a well-formed store well-formed, if what it restores is sane.
-/

namespace BatchStore

/-- Octets behind the keyword of a type that are no text. -/
def NoText (words : List Octets) (f : Fault) : Prop :=
  ∃ before word kind behind e, words = before ++ word :: kind :: behind ∧
    Keyword.ofOctets? word = some .type ∧ kind.decode? = .error e ∧ f = .notUtf8 e

theorem NoText.cons {words : List Octets} {f : Fault} (h : NoText words f) (w : Octets) :
    NoText (w :: words) f := by
  obtain ⟨before, word, kind, behind, e, rfl, hRest⟩ := h
  exact ⟨w :: before, word, kind, behind, e, rfl, hRest⟩

/-- Why a request may break down in a store. -/
inductive Breaks (now : Float) (s : Store) : CommandType → List Octets → Fault → Prop
  | expire {key w : Octets} {n : Int} {f : Fault} (hInt : Number.int? w = some n)
      (hKey : (s.live? now s.selected key).isSome = true) (hPositive : 0 < n)
      (hFar : TooFar .ex n f) : Breaks now s .expire [key, w] f
  | ttl {key : Octets} {f : Fault} (hAway : Keys.Unmeasured now (s.live? now s.selected key)) :
      Breaks now s .ttl [key] f
  | set {key value : Octets} {options : List Octets} {f : Fault}
      (hLong : LongDeadline options f) : Breaks now s .set (key :: value :: options) f
  | getex {key : Octets} {options : List Octets} {f : Fault} (hLong : LongDeadline options f) :
      Breaks now s .getex (key :: options) f
  | restore {key w payload : Octets} {options : List Octets} {n : Int} {f : Fault}
      (hInt : Number.int? w = some n) (hPositive : 0 < n) (hFar : TooFar .px n f) :
      Breaks now s .restore (key :: w :: payload :: options) f
  | incr {key : Octets} {n : Int} {f : Fault}
      (hCounted : Strings.counted? (s.live? now s.selected key) = some n)
      (hLong : Strings.TooLong (n + 1) f) : Breaks now s .incr [key] f
  | incrby {key w : Octets} {n amount : Int} {f : Fault} (hInt : Number.int? w = some amount)
      (hCounted : Strings.counted? (s.live? now s.selected key) = some n)
      (hLong : Strings.TooLong (n + amount) f) : Breaks now s .incrby [key, w] f
  | decr {key : Octets} {n : Int} {f : Fault}
      (hCounted : Strings.counted? (s.live? now s.selected key) = some n)
      (hLong : Strings.TooLong (n - 1) f) : Breaks now s .decr [key] f
  | decrby {key w : Octets} {n amount : Int} {f : Fault} (hInt : Number.int? w = some amount)
      (hCounted : Strings.counted? (s.live? now s.selected key) = some n)
      (hLong : Strings.TooLong (n - amount) f) : Breaks now s .decrby [key, w] f
  | scanType {cursor : Octets} {options : List Octets} {f : Fault} (hText : NoText options f) :
      Breaks now s .scan (cursor :: options) f
  | scanCursor {cursor : Octets} {options : List Octets} {n : Int} {f : Fault}
      (hInside : n < ((s.database s.selected).settleAll now).size)
      (hLong : Strings.TooLong n f) : Breaks now s .scan (cursor :: options) f
  | zrange {key first last : Octets} {options : List Octets} {f : Fault}
      (hRank : Unrankable (s.live? now s.selected key)) :
      Breaks now s .zrange (key :: first :: last :: options) f
  | zpopmin {key : Octets} {count : List Octets} {f : Fault}
      (hRank : Unrankable (s.live? now s.selected key)) : Breaks now s .zpopmin (key :: count) f
  | zpopmax {key : Octets} {count : List Octets} {f : Fault}
      (hRank : Unrankable (s.live? now s.selected key)) : Breaks now s .zpopmax (key :: count) f
  | load {words : List Octets} {name : Octets} {e : Octets.Utf8Error}
      (hName : Libraries.nameOf? (words.getLast?.getD []) = some name)
      (hThere : s.libraries.contains (.octets name) = true) (hText : name.decode? = .error e) :
      Breaks now s .functionLoad words (.notUtf8 e)
  | restoreLibraries {payload : Octets} {policy : List Octets} {ps : List (Datum × Datum)}
      {clash : Datum} {f : Fault} (hRead : Payload.read? payload = some (.mapping ps))
      (hClash : Libraries.clash? s.libraries ⟨ps⟩ = some clash)
      (hShown : Libraries.shownName clash = breakDown f) :
      Breaks now s .functionRestore (payload :: policy) f
  | fcall {words : List Octets} {code : Datum} {f : Fault} (hThere : code ∈ s.libraries.values)
      (hCode : ¬ code.IsOctets) : Breaks now s .fcall words f
  | fcallReadonly {words : List Octets} {code : Datum} {f : Fault}
      (hThere : code ∈ s.libraries.values) (hCode : ¬ code.IsOctets) :
      Breaks now s .fcallReadonly words f

/-- What a request restores is sane. -/
def Restorable (t : CommandType) (args : List Octets) : Prop :=
  t = .restore → ∀ key lifetime payload options, args = key :: lifetime :: payload :: options →
    Payload.Sane payload

namespace Store

/-! ## Well-formed stores -/

/-- Every value is well-formed. -/
def WellFormed (s : Store) : Prop := ∀ db ∈ s.databases, ∀ e ∈ db.values, e.value.WellFormed

namespace WellFormed

variable {s : Store}

/-- The entries of one database are among those of the store. -/
theorem database (h : s.WellFormed) (i : Nat) :
    ∀ e ∈ (s.database i).values, e.value.WellFormed := by
  rcases database_mem s i with hMem | hEmpty
  · exact h _ hMem
  · rw [hEmpty]
    exact fun _ hNever => nomatch hNever

/-- What shows at a key is an entry of the store. -/
theorem live? (h : s.WellFormed) (now : Float) (i : Nat) (key : Octets) :
    Entry.WellFormed (s.live? now i key) := by
  intro e he
  have hHeld := ((live?_eq_some_iff s now i key e).1 he).1
  exact h.database i e (Table.mem_values_of_get? hHeld)

/-- A database of well-formed entries may take the place of another. -/
theorem setDatabase (h : s.WellFormed) (i : Nat) {db : Database}
    (hNew : ∀ e ∈ db.values, e.value.WellFormed) : (s.setDatabase i db).WellFormed := by
  intro db' hMem
  rcases List.mem_or_eq_of_mem_set hMem with hOld | rfl
  · exact h db' hOld
  · exact hNew

/-- Taking an expired key out brings no entry in. -/
theorem settle (h : s.WellFormed) (now : Float) (i : Nat) (key : Octets) :
    (s.settle now i key).WellFormed :=
  h.setDatabase i fun e he => h.database i e (Database.mem_values_settle he)

theorem settleAll (h : s.WellFormed) (now : Float) (i : Nat) : (s.settleAll now i).WellFormed :=
  h.setDatabase i fun e he => h.database i e (Table.mem_values_filter he)

theorem setEntry (h : s.WellFormed) (i : Nat) (key : Octets) {e? : Option Entry}
    (hNew : Entry.WellFormed e?) : (s.setEntry i key e?).WellFormed := by
  refine h.setDatabase i fun e he => ?_
  cases e? with
  | none => exact h.database i e (Table.mem_values_erase he)
  | some new =>
      rcases Table.mem_values_put he with rfl | hOld
      · exact hNew e rfl
      · exact h.database i e hOld

/-- A sweep brings no entry in. -/
theorem sweep (h : s.WellFormed) (now : Float) : (s.sweep now).WellFormed := by
  intro db hMem e he
  obtain ⟨old, hOld, rfl⟩ := List.mem_map.1 hMem
  exact h old hOld e (Table.mem_values_filter he)

end WellFormed

/-! ## Acts -/

/-- An act that breaks down only for a cause, and that keeps a well-formed store well-formed if
a condition is met. -/
structure Behaves (proviso : Prop) (cause : Store → Fault → Prop) {α : Type} (p : Act α) :
    Prop where
  fault : ∀ s f, (p s).1 = .error (.faulted f) → cause s f
  keeps : proviso → ∀ s : Store, s.WellFormed → (p s).2.WellFormed

/-- No fault has a cause. -/
abbrev never : Store → Fault → Prop := fun _ _ => False

namespace Behaves

variable {now : Float} {proviso : Prop} {cause cause' : Store → Fault → Prop}
  {only : Fault → Prop} {α β : Type}

/-- A narrower cause may be given as a wider one. -/
theorem weaken {p : Act α} (h : Behaves proviso cause p) (hCause : ∀ s f, cause s f → cause' s f) :
    Behaves proviso cause' p :=
  ⟨fun s f hFault => hCause s f (h.fault s f hFault), h.keeps⟩

/-- What never breaks down does so for any cause. -/
theorem ofNever {p : Act α} (h : Behaves proviso never p) : Behaves proviso cause p :=
  h.weaken fun _ _ hNever => hNever.elim

theorem answer (a : α) : Behaves proviso cause fun s => (.ok a, s) :=
  ⟨(fun _ _ hFault => nomatch hFault), fun _ _ hs => hs⟩

theorem refuse (r : Refusal) : Behaves proviso cause fun s => (refuse (α := α) r, s) :=
  ⟨(fun _ _ hFault => nomatch hFault), fun _ _ hs => hs⟩

/-- A result that is read first. -/
theorem given {good : α → Prop} {x : Except Halt α} {next : α → Act β} (hx : Yields good only x)
    (hOnly : ∀ s f, only f → cause s f)
    (hNext : ∀ a, x = .ok a → good a → Behaves proviso cause (next a)) :
    Behaves proviso cause (Store.given x next) := by
  rcases x with ⟨r | fault⟩ | a
  · exact refuse r
  · refine ⟨fun s f hFault => hOnly s f ?_, fun _ _ hs => hs⟩
    cases hFault
    exact hx.fault fault rfl
  · exact hNext a rfl (hx.result a rfl)

/-- A result that is the answer. -/
theorem result {good : α → Prop} {x : Except Halt α} (hx : Yields good only x)
    (hOnly : ∀ s f, only f → cause s f) : Behaves proviso cause fun s => (x, s) :=
  ⟨fun s f hFault => hOnly s f (hx.fault f hFault), fun _ _ hs => hs⟩

/-- Where the causes are the same in all stores, one act may follow another. -/
theorem andThen {first : Act α} {next : α → Act β} (hFirst : Behaves proviso (fun _ => only) first)
    (hNext : ∀ a, Behaves proviso (fun _ => only) (next a)) :
    Behaves proviso (fun _ => only) (Store.andThen first next) := by
  constructor
  · intro s f hFault
    unfold Store.andThen at hFault
    rcases hRun : first s with ⟨h | a, t⟩ <;> rw [hRun] at hFault
    · cases hFault
      exact hFirst.fault s f (congrArg Prod.fst hRun)
    · exact (hNext a).fault t f hFault
  · intro hProviso s hs
    have hAfter := hFirst.keeps hProviso s hs
    unfold Store.andThen
    rcases hRun : first s with ⟨h | a, t⟩ <;> rw [hRun] at hAfter
    · exact hAfter
    · exact (hNext a).keeps hProviso t hAfter

theorem withSelected {next : Nat → Act α} (hNext : ∀ i, Behaves proviso never (next i)) :
    Behaves proviso cause (Store.withSelected next) :=
  ofNever ⟨fun s => (hNext s.selected).fault s, fun h s => (hNext s.selected).keeps h s⟩

theorem withLibraries {next : Table Datum Datum → Act α}
    (hNext : ∀ libraries, Behaves proviso (fun s f => s.libraries = libraries → cause s f)
      (next libraries)) : Behaves proviso cause (Store.withLibraries next) :=
  ⟨fun s f hFault => (hNext s.libraries).fault s f hFault rfl,
    fun hProviso s => (hNext s.libraries).keeps hProviso s⟩

/-- The entry that is looked up is well-formed, as the store is. -/
theorem lookUp (i : Nat) (key : Octets) {next : Option Entry → Act α}
    (hNext : ∀ seen, Behaves (proviso ∧ Entry.WellFormed seen) never (next seen)) :
    Behaves proviso never (Store.lookUp now i key next) where
  fault s := (hNext (s.live? now i key)).fault (s.settle now i key)
  keeps hProviso _ hs :=
    (hNext _).keeps ⟨hProviso, hs.live? now i key⟩ _ (hs.settle now i key)

/-- A write, and what is done behind it. -/
theorem write (i : Nat) (key : Octets) {e? : Option Entry} {next : Act α}
    (hNew : proviso → Entry.WellFormed e?) (hNext : Behaves proviso never next) :
    Behaves proviso never fun s => next (s.setEntry i key e?) where
  fault s := hNext.fault (s.setEntry i key e?)
  keeps hProviso _ hs := hNext.keeps hProviso _ (hs.setEntry i key (hNew hProviso))

/-- A key step breaks down for a cause in what shows at its key. -/
theorem onKey (key : Octets) {step : KeyStep} {at? : Option Entry → Fault → Prop}
    (hStep : ∀ seen, Yields (fun a => proviso → Entry.WellFormed seen → Entry.WellFormed a.2)
      (at? seen) (step seen))
    (hCause : ∀ s f, at? (s.live? now s.selected key) f → cause s f) :
    Behaves proviso cause (Store.onKey now key step) := by
  have hRun (s : Store) : Store.onKey now key step s =
      Store.given (step (s.live? now s.selected key))
        (fun a s' => (.ok a.1, s'.setEntry s.selected key a.2)) (s.settle now s.selected key) := rfl
  constructor
  · intro s f hFault
    rw [hRun] at hFault
    refine hCause s f ((hStep (s.live? now s.selected key)).fault f ?_)
    rcases hSeen : step (s.live? now s.selected key) with h | a <;> rw [hSeen] at hFault <;>
      cases hFault
    rfl
  · intro hProviso s hs
    rw [hRun]
    have hSettled := hs.settle now s.selected key
    rcases hSeen : step (s.live? now s.selected key) with h | a
    · exact hSettled
    · have hAfter := (hStep (s.live? now s.selected key)).result a hSeen hProviso
        (hs.live? now s.selected key)
      exact hSettled.setEntry s.selected key hAfter

/-- A command on one key breaks down where its step does on what shows at the key. -/
theorem onKey_orderly (key : Octets) {step : KeyStep} {at? : Option Entry → Fault → Prop}
    (hStep : step.Orderly at?) (hCause : ∀ s f, at? (s.live? now s.selected key) f → cause s f) :
    Behaves proviso cause (Store.onKey now key step) :=
  onKey key (fun seen => ⟨fun a hOk _ => (hStep seen).result a hOk, (hStep seen).fault⟩) hCause

theorem onKey_faultless (key : Octets) {step : KeyStep} (hStep : step.Faultless) :
    Behaves proviso cause (Store.onKey now key step) :=
  onKey_orderly key hStep fun _ _ hNever => hNever.elim

/-- A step that never breaks down does not do so on key after key. -/
theorem onEach {step : KeyStep} (hStep : step.Faultless) (keys : List Octets) :
    Behaves proviso never (Store.onEach now step keys) := by
  induction keys with
  | nil => exact answer []
  | cons key keys ih =>
      exact andThen (onKey_faultless key hStep) fun reply =>
        andThen ih fun replies => answer (reply :: replies)

/-- An answer from the selected database, once the expired keys are out. -/
theorem count (reply : Database → Except Halt α)
    (h : ∀ s : Store, ∀ f, reply ((s.settleAll now s.selected).database s.selected) =
      .error (.faulted f) → cause s f) :
    Behaves proviso cause (Store.withSelected fun i s =>
      (reply ((s.settleAll now i).database i), s.settleAll now i)) :=
  ⟨h, fun _ s hs => hs.settleAll now s.selected⟩

theorem countKeys {step : KeyStep} (hStep : step.Faultless) (keys : List Octets) :
    Behaves proviso cause (Store.countKeys now step keys) :=
  ofNever (andThen (onEach hStep keys) fun replies => answer (Datum.int (total replies)))

theorem listKeys {step : KeyStep} (hStep : step.Faultless) (keys : List Octets) :
    Behaves proviso cause (Store.listKeys now step keys) :=
  ofNever (andThen (onEach hStep keys) fun replies => answer (Datum.list replies))

end Behaves

/-! ## The commands -/

section Commands

variable {now : Float} {proviso : Prop} {cause : Store → Fault → Prop}

open Behaves

/-- RENAME and MOVE move entries as they are. -/
theorem rename_behaves (key newKey : Octets) :
    Behaves proviso cause (Keys.rename now key newKey) := by
  refine .withSelected fun i => .lookUp i key fun seen => ?_
  cases seen with
  | none => exact .refuse _
  | some e =>
      exact .write i key (fun _ => Entry.wellFormed_none)
        (.write i newKey (fun h => h.2) (.answer _))

/-- An entry that is moved was well-formed where it was. -/
theorem moveTo_behaves (key : Octets) (target i : Nat) :
    Behaves proviso never (Keys.moveTo now key target i) := by
  unfold Keys.moveTo
  split
  · exact .refuse _
  · refine .lookUp i key fun seen => ?_
    cases seen with
    | none => exact .answer _
    | some e =>
        refine .lookUp target key fun taken => ?_
        cases taken with
        | some _ => exact .answer _
        | none =>
            exact .write target key (fun h => h.1.2)
              (.write i key (fun _ => Entry.wellFormed_none) (.answer _))

/-- The number of a database that is asked for. -/
theorem yields_index (s : Store) (index : Octets) :
    Yields (fun _ => True) (fun _ => False) ((readInt index).bind s.index?) := by
  refine Yields.bind (yields_readInt index) fun i _ _ => ?_
  unfold Store.index?
  split
  · exact .ok trivial
  · exact .refused _

/-- An act that looks at the store it begins with. -/
theorem behaves_of_each {α : Type} {p : Store → Act α} (h : ∀ s, Behaves proviso cause (p s)) :
    Behaves proviso cause fun s => p s s :=
  ⟨fun s => (h s).fault s, fun hProviso s => (h s).keeps hProviso s⟩

theorem select_behaves (index : Octets) : Behaves proviso cause (Server.select index) := by
  refine behaves_of_each (p := fun s => Store.given ((readInt index).bind s.index?) fun i s =>
    (.ok okReply, { s with selected := i })) fun s => ?_
  refine .given (yields_index s index) (fun _ _ hNever => hNever.elim) fun i _ _ => ?_
  exact ⟨(fun _ _ hFault => nomatch hFault), fun _ _ hs => hs⟩

theorem move_behaves (key index : Octets) : Behaves proviso cause (Keys.move now key index) := by
  refine behaves_of_each (p := fun s => Store.given ((readInt index).bind s.index?) fun target =>
    Store.withSelected (Keys.moveTo now key target)) fun s => ?_
  exact .given (yields_index s index) (fun _ _ hNever => hNever.elim) fun target _ _ =>
    .withSelected (moveTo_behaves key target)

/-- The options of COPY are refused, or read. -/
theorem yields_copyPlan (s : Store) (plan : Keys.CopyPlan) (options : List Octets) :
    Yields (fun _ => True) (fun _ => False) (Keys.CopyPlan.read s plan options) := by
  fun_induction Keys.CopyPlan.read s plan options with
  | case1 plan => exact .ok trivial
  | case2 plan w index rest hWord ih =>
      refine (yields_readInt index).bind fun i _ _ => ?_
      have hIndex : Yields (fun _ => True) (fun _ => False) (s.index? i) := by
        unfold Store.index?
        split
        · exact .ok trivial
        · exact .refused _
      exact hIndex.bind fun target _ _ => ih target
  | case3 plan w rest hWord ih => exact ih
  | case4 => exact .refused _

/-- An entry that is copied was well-formed where it was. -/
theorem copyPlan_run_behaves (plan : Keys.CopyPlan) (source destination : Octets) (i : Nat) :
    Behaves proviso never (plan.run now source destination i) := by
  unfold Keys.CopyPlan.run
  split
  · exact .refuse _
  · refine .lookUp i source fun seen => ?_
    cases seen with
    | none => exact .answer _
    | some e =>
        refine .lookUp plan.target destination fun taken => ?_
        by_cases hTaken : (taken.isSome && !plan.replace) = true
        · simp only [hTaken, if_true]
          exact .answer _
        · simp only [hTaken]
          exact .write plan.target destination (fun h => h.1.2) (.answer _)

theorem copy_behaves (source destination : Octets) (options : List Octets) :
    Behaves proviso cause (Keys.copy now source destination options) := by
  refine behaves_of_each (p := fun s =>
    Store.given (Keys.CopyPlan.read s { target := s.selected } options) fun plan =>
      Store.withSelected (plan.run now source destination)) fun s => ?_
  exact .given (yields_copyPlan s _ options) (fun _ _ hNever => hNever.elim) fun plan _ _ =>
    .withSelected (copyPlan_run_behaves plan source destination)

theorem yields_readText (w : Octets) :
    Yields (fun _ => True) (fun f => ∃ e, w.decode? = .error e ∧ f = .notUtf8 e) (readText w) := by
  unfold readText
  split
  · exact .ok trivial
  · rename_i e hError
    exact .faulted ⟨e, hError, rfl⟩

/-- The options of SCAN break down only on a type that is no text. -/
theorem yields_scanPlan (plan : Scan.Plan) (options : List Octets) :
    Yields (fun _ => True) (NoText options) (Scan.Plan.read plan options) := by
  fun_induction Scan.Plan.read plan options with
  | case1 plan => exact .ok trivial
  | case2 => exact .refused _
  | case3 plan w v rest hWord ih =>
      exact ih.weaken fun f hf => (hf.cons v).cons w
  | case4 plan w v rest hWord ih =>
      refine (yields_readInt v).bind fun count _ _ => ?_
      split
      · exact .refused _
      · exact (ih count).weaken fun f hf => (hf.cons v).cons w
  | case5 plan w v rest hWord ih =>
      have hText := (yields_readText v).weaken fun f ⟨e, hError, hf⟩ =>
        (⟨[], w, v, rest, e, rfl, hWord, hError, hf⟩ : NoText (w :: v :: rest) f)
      exact hText.bind fun kind _ _ => (ih kind).weaken fun f hf => (hf.cons v).cons w
  | case6 => exact .refused _

/-- The cursor of a scan is too long only inside the database. -/
theorem scanReply_fault {plan : Scan.Plan} {fits : Octets → Octets → Bool} {db : Database}
    {f : Fault} (h : plan.reply fits db = .error (.faulted f)) :
    ∃ n : Int, n < db.size ∧ Strings.TooLong n f := by
  unfold Scan.Plan.reply at h
  split at h
  · rename_i hNone
    cases h
    unfold Scan.Plan.nextCursor at hNone
    split at hNone
    · rename_i hInside
      exact ⟨_, hInside, rfl, hNone⟩
    · have hShort : (0 : Int).natAbs < Number.tenTo Number.maxDigits := Number.tenTo_pos _
      rw [Number.intText?, if_pos hShort] at hNone
      cases hNone
  · cases h

/-- SCAN breaks down on a type that is no text, or on a cursor too long to be written. -/
theorem scan_behaves (cursor : Octets) (options : List Octets) :
    Behaves proviso (fun s f => Breaks now s .scan (cursor :: options) f)
      (Scan.scan now cursor options) := by
  unfold Scan.scan Scan.scanBy
  split
  · exact .refuse _
  · refine .given (yields_scanPlan _ options) (fun _ _ hText => .scanType hText) fun plan _ _ => ?_
    refine .count (plan.reply Octets.fitsGlob) fun s f hFault => ?_
    obtain ⟨n, hInside, hLong⟩ := scanReply_fault hFault
    rw [database_settleAll] at hInside
    exact .scanCursor hInside hLong

theorem yields_restorePlan (plan : Backup.RestorePlan) (options : List Octets) :
    Yields (fun _ => True) (fun _ => False) (Backup.RestorePlan.read plan options) := by
  fun_induction Backup.RestorePlan.read plan options with
  | case1 plan => exact .ok trivial
  | case2 plan w rest hWord ih => exact ih
  | case3 plan w rest hWord ih => exact ih
  | case4 plan w v rest hWord ih => exact (yields_readInt v).bind fun _ _ _ => ih
  | case5 plan w v rest hWord ih => exact (yields_readInt v).bind fun _ _ _ => ih
  | case6 => exact .refused _

/-- RESTORE breaks down on a lifetime past the largest double, and leaves the store well-formed if
the payload is sane. -/
theorem restore_behaves (key lifetime payload : Octets) (options : List Octets) :
    Behaves (Payload.Sane payload)
      (fun s f => Breaks now s .restore (key :: lifetime :: payload :: options) f)
      (Backup.restore now key lifetime payload options) := by
  have hNone {s : Store} {f : Fault} (h : False) :
      Breaks now s .restore (key :: lifetime :: payload :: options) f := h.elim
  refine .given (yields_readInt lifetime) (fun _ _ => hNone) fun n _ hInt => ?_
  refine .given (yields_restorePlan {} options) (fun _ _ => hNone) fun plan _ _ => ?_
  have hDeadline : Yields (fun _ => True) (fun f => 0 < n ∧ TooFar .px n f)
      (plan.deadline? now n) := by
    unfold Backup.RestorePlan.deadline?
    split
    · exact .ok trivial
    · rename_i hPositive
      have hSeconds := (yields_asSeconds n).weaken fun f hf =>
        (⟨by omega, hf⟩ : 0 < n ∧ TooFar .px n f)
      exact hSeconds.bind fun _ _ _ => .ok trivial
  have hStep (seen : Option Entry) : Yields (fun a => Payload.Sane payload →
      Entry.WellFormed seen → Entry.WellFormed a.2) (fun _ => False) (plan.step payload seen) := by
    have hValue : Yields (fun a => Payload.Sane payload → Entry.WellFormed a.2)
        (fun _ => False) (plan.step payload seen) := Backup.step_yields plan payload seen
    exact ⟨fun a hOk hSane _ => hValue.result a hOk hSane, hValue.fault⟩
  refine (?_ : Behaves (Payload.Sane payload) (fun _ f => 0 < n ∧ TooFar .px n f) _).weaken
    fun s f hf => .restore hInt hf.1 hf.2
  refine .andThen (.onKey key hStep fun _ _ hNever => hNever.elim) fun reply =>
    .given hDeadline (fun _ _ h => h) fun t? _ _ => ?_
  cases t? with
  | none => exact .answer reply
  | some t => exact .onKey_faultless key (Backup.withDeadline_orderly t)

/-- MSET writes strings, which are well-formed. -/
theorem writeAll_wellFormed (pairs : List (Octets × Octets)) {s : Store} (hs : s.WellFormed) :
    (Strings.writeAll pairs s).WellFormed := by
  induction pairs generalizing s with
  | nil => exact hs
  | cons e pairs ih =>
      have hString : Entry.WellFormed (some { value := .string e.2 }) :=
        Entry.wellFormed_some (Value.wellFormed_string e.2)
      exact ih (hs.setEntry s.selected e.1 hString)

theorem mset_behaves (words : List Octets) : Behaves proviso cause (Strings.mset words) := by
  unfold Strings.mset
  split
  · exact .refuse _
  · rename_i pairs _
    exact ⟨(fun _ _ hFault => nomatch hFault), fun _ _ hs => writeAll_wellFormed pairs hs⟩

/-- The options of SET break down only on a deadline that is too far away. -/
theorem yields_setPlan (plan : Strings.SetPlan) (options : List Octets) :
    Yields (fun _ => True) (LongDeadline options) (Strings.SetPlan.read now plan options) := by
  fun_induction Strings.SetPlan.read now plan options with
  | case1 plan => exact .ok trivial
  | case2 plan w rest hWord ih | case3 plan w rest hWord ih | case5 plan w rest hWord ih
  | case6 plan w rest hWord ih => exact ih.weaken fun f hf => hf.cons w
  | case4 plan w v rest hWord ih => exact ih.weaken fun f hf => (hf.cons v).cons w
  | case7 plan w k v rest hNotNx hNotXx hNotIfeq hNotGet hNotKeep hWord hUnit ih =>
      refine (yields_readInt v).bind fun amount _ hAmount => ?_
      have hDeadline := (yields_deadlineOf now hUnit amount).weaken fun f hf =>
        (⟨[], w, v, rest, k, amount, rfl, hWord, hUnit, hAmount, hf⟩ :
          LongDeadline (w :: v :: rest) f)
      exact hDeadline.bind fun deadline _ _ =>
        (ih deadline).weaken fun f hf => (hf.cons v).cons w
  | case8 => exact .refused _
  | case9 => exact .refused _

/-- Words that go into pairs are twice as many as the pairs. -/
theorem pairUp_length {words : List Octets} {pairs : List (Octets × Octets)}
    (h : pairUp words = some pairs) : words.length = 2 * pairs.length := by
  fun_induction pairUp words generalizing pairs with
  | case1 =>
      cases h
      rfl
  | case2 => cases h
  | case3 a b rest ih =>
      obtain ⟨others, hRest, rfl⟩ := Option.map_eq_some_iff.1 h
      have hOthers := ih hRest
      simp only [List.length_cons]
      omega

/-- Words make at least one pair if there are any. -/
theorem pairs_ne_nil {words : List Octets} {pairs : List (Octets × Octets)}
    (h : pairUp words = some pairs) (hSome : words ≠ []) : pairs ≠ [] := by
  intro hNil
  have hLength := pairUp_length h
  rw [hNil] at hLength
  exact hSome (List.length_eq_zero_iff.1 hLength)

theorem yields_search (q : Lists.Search) (options : List Octets) :
    Yields (fun _ => True) (fun _ => False) (Lists.Search.read q options) := by
  fun_induction Lists.Search.read q options with
  | case1 q => exact .ok trivial
  | case2 => exact .refused _
  | case3 q w v rest hWord ih =>
      refine (yields_readInt v).bind fun rank _ _ => ?_
      split
      · exact .refused _
      · exact ih rank
  | case4 q w v rest hWord ih => exact (yields_readInt v).bind fun maxLen _ _ => ih maxLen
  | case5 => exact .refused _

theorem yields_rangePlan (plan : SortedSets.RangePlan) (options : List Octets) :
    Yields (fun _ => True) (fun _ => False) (SortedSets.RangePlan.read plan options) := by
  fun_induction SortedSets.RangePlan.read plan options with
  | case1 plan => exact .ok trivial
  | case2 plan w rest hWord ih | case3 plan w rest hWord ih | case4 plan w rest hWord ih => exact ih
  | case5 plan w offset count rest hWord ih =>
      exact (yields_readInt offset).bind fun o _ _ =>
        (yields_readInt count).bind fun c _ _ => ih o c
  | case6 => exact .refused _

theorem yields_count (count? : Option Octets) :
    Yields (fun _ => True) (fun _ => False) (count?.mapM readInt) := by
  cases count? with
  | none => exact .ok trivial
  | some w => exact (yields_readInt w).map some fun _ _ => trivial

theorem hset_behaves (key : Octets) {words : List Octets} (hSome : words ≠ []) :
    Behaves proviso cause (Hashes.hset now key words) := by
  unfold Hashes.hset
  split
  · exact .refuse _
  · rename_i pairs hPairs
    exact .onKey_faultless key (Hashes.hsetStep_orderly (pairs_ne_nil hPairs hSome))

theorem zadd_behaves (key : Octets) {words : List Octets} (hSome : words ≠ []) :
    Behaves proviso cause (SortedSets.zadd now key words) := by
  unfold SortedSets.zadd
  split
  · exact .refuse _
  · rename_i pairs hPairs
    refine .given (SortedSets.yields_readScores pairs) (fun _ _ (hNever : False) => hNever.elim)
      fun scores _ hScores => ?_
    have hFilled : scores ≠ [] := by
      intro hNil
      rw [hNil] at hScores
      exact pairs_ne_nil hPairs hSome (List.length_eq_zero_iff.1 hScores.2.symm)
    exact (Behaves.onKey_faultless key (SortedSets.zaddStep_orderly hScores.1 hFilled))

theorem geoadd_behaves (key : Octets) (words : List Octets) :
    Behaves proviso cause (Places.geoadd now key words) := by
  unfold Places.geoadd
  dsimp only
  split
  · exact .refuse _
  · exact .refuse _
  · rename_i places _ _
    refine .given (Places.yields_readPlaces places) (fun _ _ (hNever : False) => hNever.elim)
      fun scores _ hScores => ?_
    exact Behaves.onKey_faultless key (Places.geoaddStep_orderly _ hScores)

/-- The four counting commands break down on a sum too long to be written. -/
theorem addRead_behaves (key amount : Octets) (sign : Int)
    (hCause : ∀ s f a n, Number.int? amount = some a →
      Strings.counted? (s.live? now s.selected key) = some n →
      Strings.TooLong (n + sign * a) f → cause s f) :
    Behaves proviso cause (Store.addRead now key amount sign) := by
  refine .given (yields_readInt amount) (fun _ _ (hNever : False) => hNever.elim) fun a _ hInt => ?_
  refine .onKey_orderly key (Strings.add_orderly (sign * a)) fun s f hLong => ?_
  obtain ⟨n, hCounted, hLong⟩ := hLong
  exact hCause s f a n hInt hCounted hLong

/-! ## Function libraries -/

theorem relabel_behaves (libraries : Table Datum Datum) (reply : Datum) :
    Behaves proviso cause fun s => (.ok reply, { s with libraries }) :=
  ⟨(fun _ _ hFault => nomatch hFault), fun _ _ hs => hs⟩

/-- FUNCTION LOAD breaks down only on a name that is taken and is no text. -/
theorem load_behaves (first : Octets) (rest : List Octets) :
    Behaves proviso (fun s f => Breaks now s .functionLoad (first :: rest) f)
      (Libraries.load first ((first :: rest).getLast?.getD [])) := by
  unfold Libraries.load
  split
  · exact .refuse _
  · rename_i name hName
    refine .withLibraries fun libraries => ?_
    dsimp only
    split
    · rename_i hThere
      rw [Bool.and_eq_true] at hThere
      refine .given (yields_readText name) (fun s f ⟨e, hText, hf⟩ hLibraries => ?_)
        fun _ _ _ => .refuse _
      subst hf hLibraries
      exact .load hName hThere.1 hText
    · exact relabel_behaves _ _

/-- Libraries put together break down only in showing the name that is in the way. -/
theorem yields_restored (policy : Option Keyword) (old new : Table Datum Datum) :
    Yields (fun _ => True)
      (fun f => ∃ clash, Libraries.clash? old new = some clash ∧
        Libraries.shownName clash = breakDown f)
      (Libraries.restored policy old new) := by
  unfold Libraries.restored
  split
  · exact .ok trivial
  · exact .ok trivial
  · split
    · rename_i clash hClash
      have hShown : Yields (fun _ => True)
          (fun f => ∃ clash, Libraries.clash? old new = some clash ∧
            Libraries.shownName clash = breakDown f)
          (Libraries.shownName clash) :=
        ⟨fun _ _ => trivial, fun f hFault => ⟨clash, hClash, hFault⟩⟩
      exact hShown.bind fun _ _ _ => .refused _
    · exact .ok trivial
  · exact .refused _

/-- FUNCTION RESTORE breaks down only in showing the name that is in the way. -/
theorem restoreLibraries_behaves (payload : Octets) (policy : List Octets) :
    Behaves proviso (fun s f => Breaks now s .functionRestore (payload :: policy) f)
      (Libraries.restore payload policy.head?) := by
  unfold Libraries.restore Libraries.restoreBy
  split
  · exact .refuse _
  · rename_i ps hRead
    refine .withLibraries fun libraries => ?_
    refine .given (yields_restored _ libraries ⟨ps⟩) (fun s f ⟨clash, hClash, hShown⟩ hSame => ?_)
      fun after _ _ => relabel_behaves after _
    subst hSame
    exact .restoreLibraries hRead hClash hShown
  · exact .refuse _

/-- A search breaks down only at code that is no string of octets. -/
theorem anyHolds_fault {needle : Octets} {codes : List Datum} {f : Fault}
    (h : Libraries.anyHolds needle codes = .error f) : ∃ code ∈ codes, ¬ code.IsOctets := by
  induction codes with
  | nil => cases h
  | cons code rest ih =>
      unfold Libraries.anyHolds at h
      split at h
      · obtain ⟨other, hMem, hCode⟩ := ih h
        exact ⟨other, List.mem_cons_of_mem _ hMem, hCode⟩
      · refine ⟨code, List.mem_cons_self, ?_⟩
        rintro ⟨w, rfl⟩
        cases h

/-- A call breaks down only over the code of a library that is no string of octets. -/
theorem yields_called (libraries : Table Datum Datum) (function numkeys : Octets)
    (words : List Octets) :
    Yields (fun _ => True) (fun _ => ∃ code ∈ libraries.values, ¬ code.IsOctets)
      (Libraries.called libraries function numkeys words) := by
  refine (yields_readInt numkeys).bind fun n _ _ => ?_
  split
  · exact .refused _
  · split
    · rename_i f hHolds
      exact .faulted (anyHolds_fault hHolds)
    · exact .refused _
    · exact .refused _

theorem call_behaves (function numkeys : Octets) (words : List Octets)
    (hCause : ∀ s f code, code ∈ s.libraries.values → ¬ code.IsOctets → cause s f) :
    Behaves proviso cause (Libraries.call function numkeys words) := by
  refine .withLibraries fun libraries => ?_
  refine .result (yields_called libraries function numkeys words)
    fun s f ⟨code, hMem, hCode⟩ hSame => ?_
  subst hSame
  exact hCause s f code hMem hCode

end Commands

/-! ## All commands -/

/-- A type that wants two arguments at least is never left with its key alone. -/
theorem ne_nil_of_admits {t : CommandType} {args : List Octets} {key : Octets}
    (hMany : 2 ≤ t.minArity) (h : t.admits (key :: args).length = true) : args ≠ [] := by
  intro hNil
  subst hNil
  unfold CommandType.admits at h
  rw [Bool.and_eq_true, decide_eq_true_iff] at h
  have hOne := h.1
  simp only [List.length_cons, List.length_nil] at hOne
  omega

/-- A request with as many arguments as its type admits breaks down only for a reason, and keeps
a well-formed store well-formed if what it restores is sane. -/
theorem step_behaves (now : Float) {t : CommandType} {args : List Octets}
    (hAdmits : t.admits args.length = true) :
    Behaves (Restorable t args) (fun s f => Breaks now s t args f) (step now t args) := by
  unfold Store.step
  split
  · exact .answer _
  · exact .answer _
  · exact select_behaves _
  · exact ⟨(fun _ _ hFault => nomatch hFault), fun _ _ hs => hs.sweep now⟩
  · exact .count (fun db => .ok (Datum.int db.size)) fun _ _ hFault => nomatch hFault
  · exact ⟨(fun _ _ hFault => nomatch hFault),
      fun _ s hs => hs.setDatabase s.selected fun _ hNever => nomatch hNever⟩
  · exact .countKeys Keys.delete_orderly _
  · exact .countKeys Keys.exists?_orderly _
  · refine .given (yields_readInt _) (fun _ _ (hNever : False) => hNever.elim) fun n _ hInt => ?_
    exact .onKey_orderly _ (Keys.expireStep_orderly now n) fun s f h =>
      .expire hInt h.1 h.2.1 h.2.2
  · exact .onKey_orderly _ (Keys.ttl_orderly now) fun _ _ h => .ttl h
  · exact .onKey_faultless _ Keys.persist_orderly
  · exact .onKey_faultless _ Keys.type_orderly
  · exact rename_behaves _ _
  · exact move_behaves _ _
  · exact copy_behaves _ _ _
  · exact scan_behaves _ _
  · exact .onKey_faultless _ Backup.dump_orderly
  · exact ⟨(restore_behaves _ _ _ _).fault,
      fun h => (restore_behaves _ _ _ _).keeps (h rfl _ _ _ _ rfl)⟩
  · refine .given (yields_setPlan {} _) (fun _ _ h => .set h) fun plan _ _ => ?_
    exact .onKey_faultless _ (Strings.step_orderly plan _)
  · exact .onKey_faultless _ Strings.get_orderly
  · exact .onKey_orderly _ (Strings.getex_orderly now _) fun _ _ h => .getex h
  · exact .onKey_faultless _ (Strings.append_orderly _)
  · exact .onKey_orderly _ (Strings.add_orderly 1) fun _ _ ⟨_, hCounted, hLong⟩ =>
      .incr hCounted hLong
  · refine addRead_behaves _ _ 1 fun s f a n hInt hCounted hLong => .incrby hInt hCounted ?_
    rwa [Int.one_mul] at hLong
  · exact .onKey_orderly _ (Strings.add_orderly (-1)) fun _ _ ⟨_, hCounted, hLong⟩ =>
      .decr hCounted hLong
  · refine addRead_behaves _ _ (-1) fun s f a n hInt hCounted hLong => .decrby hInt hCounted ?_
    rwa [Int.neg_one_mul, ← Int.sub_eq_add_neg] at hLong
  · exact mset_behaves _
  · exact .listKeys Strings.peek_orderly _
  · exact .onKey_faultless _ Strings.strlen_orderly
  · exact hset_behaves _ (ne_nil_of_admits (by decide) hAdmits)
  · exact .onKey_faultless _ (Hashes.hget_orderly _)
  · exact .onKey_faultless _ (Hashes.hdel_orderly _)
  · exact .onKey_faultless _ Hashes.hgetall_orderly
  · exact .onKey_faultless _ (Hashes.hexists_orderly _)
  · exact .onKey_faultless _ Hashes.hlen_orderly
  · exact .onKey_faultless _ (Lists.pushStep_orderly .left (ne_nil_of_admits (by decide) hAdmits))
  · exact .onKey_faultless _ (Lists.pushStep_orderly .right (ne_nil_of_admits (by decide) hAdmits))
  · exact .onKey_faultless _ (Lists.popStep_orderly .left)
  · exact .onKey_faultless _ (Lists.popStep_orderly .right)
  · exact .onKey_faultless _ Lists.llen_orderly
  · exact .onKey_faultless _ (Lists.lrange_orderly _ _)
  · refine .given (yields_search {} _) (fun _ _ (hNever : False) => hNever.elim) fun q _ _ => ?_
    exact .onKey_faultless _ (Lists.lposStep_orderly q _)
  · exact .onKey_faultless _ (Sets.sadd_orderly (ne_nil_of_admits (by decide) hAdmits))
  · exact .onKey_faultless _ (Sets.srem_orderly _)
  · exact .onKey_faultless _ Sets.smembers_orderly
  · exact .onKey_faultless _ (Sets.sismember_orderly _)
  · exact .onKey_faultless _ Sets.scard_orderly
  · exact zadd_behaves _ (ne_nil_of_admits (by decide) hAdmits)
  · exact .onKey_faultless _ (SortedSets.zrem_orderly _)
  · exact .onKey_faultless _ (SortedSets.zscore_orderly _)
  · exact .onKey_faultless _ SortedSets.zcard_orderly
  · refine .given (yields_rangePlan {} _) (fun _ _ (hNever : False) => hNever.elim)
      fun plan _ _ => ?_
    exact .onKey_orderly _ (SortedSets.zrangeStep_orderly plan _ _) fun _ _ h => .zrange h
  · refine .given (yields_count _) (fun _ _ (hNever : False) => hNever.elim) fun count? _ _ => ?_
    exact .onKey_orderly _ (SortedSets.zpopStep_orderly .least _) fun _ _ h => .zpopmin h
  · refine .given (yields_count _) (fun _ _ (hNever : False) => hNever.elim) fun count? _ _ => ?_
    exact .onKey_orderly _ (SortedSets.zpopStep_orderly .greatest _) fun _ _ h => .zpopmax h
  · exact geoadd_behaves _ _
  · exact load_behaves _ _
  · exact relabel_behaves _ _
  · exact ⟨(fun _ _ hFault => nomatch hFault), fun _ _ hs => hs⟩
  · exact restoreLibraries_behaves _ _
  · exact call_behaves _ _ _ fun _ _ _ hMem hCode => .fcall hMem hCode
  · exact call_behaves _ _ _ fun _ _ _ hMem hCode => .fcallReadonly hMem hCode
  · exact .refuse _

end Store

end BatchStore
