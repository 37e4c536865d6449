import BatchStore.Proofs.Store.Alike
import BatchStore.Proofs.Store.KeySteps
import BatchStore.Store.Run

/-!
# Commands as scripts

What a command does to a store is a script of a few kinds of action. It may consult what
shows without looking at keys: the selected database, the number of databases, the
libraries. It may look at a key, which takes the key out if it is expired; it may write a
clean entry to a key. At the end it answers, or takes the expired keys of databases out and
answers from what is left, whatever order it stands in.

`Scripted now written step` says that a step is such a script, where `written` tells whether
something was written before it. A script that has written does not refuse any more.

`scripted_run` is the theorem about the commands of the store: each of them is a script, with
any arguments. Whatever is to be known of all commands is then an induction on scripts, with
one case for each kind of action.
-/

namespace BatchStore

/-- A reply that neither is a refusal nor stands for one. -/
def Accepted : Reply → Prop
  | .ok reply => reply.isRefusal = false
  | .error (.refused _) => False
  | .error (.faulted _) => True

/-- A step that is a script of the actions of the store. -/
inductive Scripted (now : Float) : Bool → Step → Prop
  | answer {written : Bool} {reply : Reply} (hReply : Accepted reply) :
      Scripted now written fun s => (reply, s)
  | refuse (r : Refusal) : Scripted now false fun s => (refuse r, s)
  | consult {written : Bool} (next : Store → Step)
      (hFrame : ∀ s t, s.SameFrame t → next s = next t)
      (hNext : ∀ s, Scripted now written (next s)) : Scripted now written fun s => next s s
  | look {written : Bool} (i : Nat) (key : Octets) {next : Option Entry → Step}
      (hNext : ∀ seen, Entry.Clean seen → Scripted now written (next seen)) :
      Scripted now written (Store.lookUp now i key next)
  | write {written : Bool} (i : Nat) (key : Octets) {e? : Option Entry} {next : Step}
      (hClean : Entry.Clean e?) (hNext : Scripted now true next) :
      Scripted now written fun s => next (s.setEntry i key e?)
  | clear {written : Bool} (i : Nat) {reply : Reply} (hReply : Accepted reply) :
      Scripted now written fun s => (reply, s.setDatabase i .empty)
  | select {written : Bool} (i : Nat) {reply : Reply} (hReply : Accepted reply) :
      Scripted now written fun s => (reply, { s with selected := i })
  | relabel {written : Bool} (libraries : Table Datum Datum) {reply : Reply}
      (hReply : Accepted reply) : Scripted now written fun s => (reply, { s with libraries })
  | count {written : Bool} (i : Nat) (reply : Database → Reply)
      (hOrder : ∀ a b : Database, a.Reordered b → reply a = reply b)
      (hReply : ∀ db, Accepted (reply db)) : Scripted now written fun s =>
        (reply ((s.settleAll now i).database i), s.settleAll now i)
  | survey {written : Bool} (reply : List Database → Reply)
      (hOrder : ∀ as bs, List.Forall₂ Table.Reordered as bs → reply as = reply bs)
      (hReply : ∀ dbs, Accepted (reply dbs)) : Scripted now written fun s =>
        (reply (s.sweep now).databases, s.sweep now)

/-! ## Keys in order -/

namespace Scan

theorem perm_sortedKeys (db : Database) : (sortedKeys db).Perm db.keys := List.mergeSort_perm _ _

theorem pairwise_sortedKeys (db : Database) : (sortedKeys db).Pairwise (· ≤ ·) := by
  have hTrans (x y z : Octets) (hxy : (!decide (y < x)) = true) (hyz : (!decide (z < y)) = true) :
      (!decide (z < x)) = true := by
    simp only [Bool.not_eq_true', decide_eq_false_iff_not, List.not_lt] at *
    exact List.le_trans hxy hyz
  have hTotal (x y : Octets) : (!decide (y < x) || !decide (x < y)) = true := by
    simp only [Bool.or_eq_true, Bool.not_eq_true', decide_eq_false_iff_not, List.not_lt]
    exact List.le_total x y
  refine (List.pairwise_mergeSort hTrans hTotal db.keys).imp fun {x y} hxy => ?_
  simpa only [Bool.not_eq_true', decide_eq_false_iff_not, List.not_lt] using hxy

end Scan

/-! ## Putting scripts together -/

namespace Scripted

variable {now : Float} {written : Bool}

/-- An answer without a refusal in it ends a script, even one that has written. -/
theorem done (reply : Datum) (hReply : reply.isRefusal = false) :
    Scripted now written fun s => (.ok reply, s) :=
  answer hReply

/-- A refusal ends only a script that has not written; a fault ends any. -/
theorem error (h : Halt) : Scripted now false fun s => (.error h, s) := by
  cases h with
  | refused r => exact refuse r
  | faulted f => exact answer trivial

/-- A result that is read first: with none, the script is over. -/
theorem given {α : Type} {x : Except Halt α} {next : α → Step}
    (hNext : ∀ a, x = .ok a → Scripted now false (next a)) :
    Scripted now false (Store.given x next) := by
  cases x with
  | error h => exact error h
  | ok a => exact hNext a rfl

/-- A result that is worked out from what may be consulted. -/
theorem givenFrom {α : Type} {x : Store → Except Halt α} {next : α → Step}
    (hFrame : ∀ s t, s.SameFrame t → x s = x t) (hNext : ∀ a, Scripted now false (next a)) :
    Scripted now false fun s => Store.given (x s) next s := by
  refine consult (fun s => Store.given (x s) next) ?_ fun s => given fun a _ => hNext a
  intro s t hSame
  rw [hFrame s t hSame]

/-- Asking for the selected database is a consultation. -/
theorem withSelected {next : Nat → Step} (hNext : ∀ i, Scripted now written (next i)) :
    Scripted now written (Store.withSelected next) := by
  refine consult (fun s => next s.selected) ?_ fun s => hNext s.selected
  intro s t hFrame
  rw [hFrame.selected]

/-! ## Steps on keys -/

/-- What comes after an act that asks for the selected database comes after what it does with it. -/
theorem andThen_withSelected {α β : Type} (f : Nat → Act α) (g : α → Act β) :
    Store.andThen (Store.withSelected f) g = Store.withSelected fun i => Store.andThen (f i) g :=
  rfl

theorem andThen_lookUp {α β : Type} (i : Nat) (key : Octets) (f : Option Entry → Act α)
    (g : α → Act β) :
    Store.andThen (Store.lookUp now i key f) g =
      Store.lookUp now i key fun seen => Store.andThen (f seen) g :=
  rfl

theorem andThen_given {α β γ : Type} (x : Except Halt α) (f : α → Act β) (g : β → Act γ) :
    Store.andThen (Store.given x f) g = Store.given x fun a => Store.andThen (f a) g := by
  cases x <;> rfl

/-- It does not matter how acts that follow one another are put together. -/
theorem andThen_assoc {α β γ : Type} (p : Act α) (f : α → Act β) (g : β → Act γ) :
    Store.andThen (Store.andThen p f) g = Store.andThen p fun a => Store.andThen (f a) g := by
  funext s
  unfold Store.andThen
  rcases p s with ⟨_ | _, _⟩ <;> rfl

/-- A key step and what is done behind it. The step may fail only where a script may end. -/
theorem onKey_then (key : Octets) {step : KeyStep} {next : Datum → Step}
    (hClean : KeyStep.Clean step)
    (hError : ∀ seen h, step seen = .error h → Scripted now written fun s => (.error h, s))
    (hNext : ∀ reply, reply.isRefusal = false → Scripted now true (next reply)) :
    Scripted now written (Store.andThen (Store.onKey now key step) next) := by
  rw [Store.onKey, andThen_withSelected]
  refine withSelected fun i => ?_
  rw [Store.onKeyIn, andThen_lookUp]
  refine look i key fun seen hSeen => ?_
  rw [andThen_given]
  cases hRun : step seen with
  | error h => exact hError seen h hRun
  | ok a =>
      obtain ⟨hReply, hAfter⟩ := hClean seen hSeen a.1 a.2 hRun
      exact write i key hAfter (hNext a.1 hReply)

/-- To answer with the reply that there is, is to do nothing more. -/
theorem andThen_reply (p : Step) : Store.andThen p (fun reply s => (.ok reply, s)) = p := by
  funext s
  unfold Store.andThen
  rcases p s with ⟨_ | _, _⟩ <;> rfl

/-- A command on one key looks at it, and writes what its step leaves there or refuses. -/
theorem onKey (key : Octets) {step : KeyStep} (hClean : KeyStep.Clean step) :
    Scripted now false (Store.onKey now key step) := by
  rw [← andThen_reply (Store.onKey now key step)]
  exact onKey_then key hClean (fun _ h _ => error h) fun _ hReply => answer hReply

/-- A key step that always answers. -/
def Total (step : KeyStep) : Prop := ∀ seen, ∃ a, step seen = .ok a

/-- A step that never refuses may be followed by more of the script, which then must not refuse
either. -/
theorem onKey_total_then (key : Octets) {step : KeyStep} {next : Datum → Step}
    (hClean : KeyStep.Clean step) (hTotal : Total step)
    (hNext : ∀ reply, reply.isRefusal = false → Scripted now true (next reply)) :
    Scripted now written (Store.andThen (Store.onKey now key step) next) := by
  refine onKey_then key hClean (fun seen h hFails => ?_) hNext
  obtain ⟨a, hAnswer⟩ := hTotal seen
  rw [hAnswer] at hFails
  cases hFails

/-- A step that never refuses may come after something was written. -/
theorem onKey_total (key : Octets) {step : KeyStep} (hClean : KeyStep.Clean step)
    (hTotal : Total step) : Scripted now written (Store.onKey now key step) := by
  rw [← andThen_reply (Store.onKey now key step)]
  exact onKey_total_then key hClean hTotal fun _ hReply => answer hReply

/-- A step that always answers, on each of some keys, and what is done behind them. -/
theorem onEach_then {step : KeyStep} (hClean : KeyStep.Clean step) (hTotal : Total step)
    (keys : List Octets) {next : List Datum → Step}
    (hNext : ∀ written replies, Scripted now written (next replies)) :
    Scripted now written (Store.andThen (Store.onEach now step keys) next) := by
  induction keys generalizing written next with
  | nil => exact hNext written []
  | cons key keys ih =>
      rw [Store.onEach, andThen_assoc]
      refine onKey_total_then key hClean hTotal fun reply _ => ?_
      rw [andThen_assoc]
      exact ih fun written replies => hNext written (reply :: replies)

/-- MSET writes its pairs one after another, and then answers. -/
theorem writeAll (pairs : List (Octets × Octets)) :
    Scripted now written fun s => (.ok okReply, Strings.writeAll pairs s) := by
  induction pairs generalizing written with
  | nil => exact answer rfl
  | cons e pairs ih =>
      have hString : Entry.Clean (some { value := .string e.2 }) :=
        Entry.clean_some (Value.clean_string e.2)
      exact withSelected fun i => write i e.1 hString ih

/-! ## Carrying over -/

/-- RENAME looks at the key, and writes to both names only if it is there. -/
theorem rename (key newKey : Octets) : Scripted now false (Keys.rename now key newKey) := by
  refine withSelected fun i => look i key fun seen hSeen => ?_
  cases seen with
  | none => exact refuse .noSuchKey
  | some e => exact write i key Entry.clean_none (write i newKey hSeen (done okReply rfl))

/-- MOVE looks at the key in both databases before it writes to either. -/
theorem moveTo (key : Octets) (target i : Nat) :
    Scripted now false (Keys.moveTo now key target i) := by
  unfold Keys.moveTo
  split
  · exact refuse .sameObject
  · refine look i key fun seen hSeen => ?_
    cases seen with
    | none => exact answer rfl
    | some e =>
        refine look target key fun taken _ => ?_
        cases taken with
        | some _ => exact answer rfl
        | none =>
            exact write target key hSeen
              (write i key Entry.clean_none (done (.bool true) rfl))

/-- Which indices there are depends on the number of databases alone. -/
theorem index?_congr {s t : Store} (hCount : s.databases.length = t.databases.length) :
    s.index? = t.index? := by
  funext i
  unfold Store.index?
  rw [hCount]

theorem move (key index : Octets) : Scripted now false (Keys.move now key index) := by
  refine givenFrom (fun s t hFrame => ?_) fun target => withSelected (moveTo key target)
  rw [index?_congr hFrame.count]

/-- The options of COPY read from the store only how many databases there are. -/
theorem copyPlan_read_congr {s t : Store} (hCount : s.databases.length = t.databases.length) :
    Keys.CopyPlan.read s = Keys.CopyPlan.read t := by
  funext plan words
  fun_induction Keys.CopyPlan.read t plan words with
  | case1 plan => rfl
  | case2 plan w index rest hWord ih =>
      simp only [Keys.CopyPlan.read, hWord, index?_congr hCount, ih]
  | case3 plan w rest hWord ih =>
      simp only [Keys.CopyPlan.read, hWord, ih]
  | case4 plan w rest hNotReplace hNotDb =>
      unfold Keys.CopyPlan.read
      split
      · rename_i hWord
        exact (hNotDb _ _ hWord rfl).elim
      · rename_i hWord
        exact (hNotReplace hWord).elim
      · rfl

/-- The options of COPY name no database that is not there. -/
theorem copyPlan_read_lt {s : Store} {plan after : Keys.CopyPlan} {options : List Octets}
    (hPlan : plan.target < s.databases.length)
    (h : Keys.CopyPlan.read s plan options = .ok after) : after.target < s.databases.length := by
  fun_induction Keys.CopyPlan.read s plan options with
  | case1 plan =>
      cases h
      exact hPlan
  | case2 plan w index others hWord ih =>
      obtain ⟨n, -, hAfter⟩ := ok_of_bind h
      obtain ⟨j, hIndex, hRest⟩ := ok_of_bind hAfter
      exact ih j (Store.index?_lt hIndex) hRest
  | case3 plan w others hWord ih => exact ih hPlan h
  | case4 => cases h

/-- COPY looks at both keys before it writes to the second. -/
theorem copyPlan_run (plan : Keys.CopyPlan) (source destination : Octets) (i : Nat) :
    Scripted now false (plan.run now source destination i) := by
  unfold Keys.CopyPlan.run
  split
  · exact refuse .sameObject
  · refine look i source fun seen hSeen => ?_
    cases seen with
    | none => exact answer rfl
    | some e =>
        refine look plan.target destination fun taken _ => ?_
        by_cases hTaken : (taken.isSome && !plan.replace) = true
        · simp only [hTaken, if_true]
          exact answer rfl
        · simp only [hTaken]
          exact write plan.target destination hSeen (done (.bool true) rfl)

theorem copy (source destination : Octets) (options : List Octets) :
    Scripted now false (Keys.copy now source destination options) := by
  refine givenFrom (fun s t hFrame => ?_) fun plan => withSelected
    (copyPlan_run plan source destination)
  rw [hFrame.selected, copyPlan_read_congr hFrame.count]

/-- Working out a deadline may break down but is never refused. -/
theorem deadline?_error {plan : Backup.RestorePlan} {lifetime : Int} {h : Halt}
    (hError : plan.deadline? now lifetime = .error h) : ∃ f, h = .faulted f := by
  unfold Backup.RestorePlan.deadline? asSeconds at hError
  split at hError
  · cases hError
  · generalize Number.thousandth? lifetime = seconds? at hError
    cases seconds? with
    | none =>
        cases hError
        exact ⟨_, rfl⟩
    | some seconds => cases hError

/-- RESTORE looks at its words before its key, and at its key before it writes. -/
theorem restore (key lifetime payload : Octets) (options : List Octets) :
    Scripted now false (Backup.restore now key lifetime payload options) := by
  refine given fun lifetime _ => given fun plan _ => ?_
  refine onKey_then key (Backup.step_clean plan payload) (fun _ h _ => error h)
    fun reply hReply => ?_
  cases hDeadline : plan.deadline? now lifetime with
  | error h =>
      obtain ⟨f, rfl⟩ := deadline?_error hDeadline
      exact answer trivial
  | ok t? =>
      cases t? with
      | none => exact answer hReply
      | some t => exact onKey_total key (Backup.withDeadline_clean t) fun _ => ⟨_, rfl⟩

/-! ## Connection and server -/

theorem select_index (index : Octets) : Scripted now false (Server.select index) := by
  refine givenFrom (fun s t hFrame => ?_) fun i => select i rfl
  rw [index?_congr hFrame.count]

theorem dbsize : Scripted now false (Server.dbsize now) := by
  refine withSelected fun i => count i (fun db => .ok (.int db.size)) (fun a b hSame => ?_)
    fun _ => rfl
  rw [hSame.size_eq]

/-- A line of INFO counts keys, whatever order they stand in. -/
theorem infoLine_eq (i : Nat) {a b : Database} (h : a.Reordered b) :
    Server.infoLine i a = Server.infoLine i b := by
  have hDeadlines : Server.deadlines a = Server.deadlines b :=
    (h.values_perm.filter _).length_eq
  unfold Server.infoLine
  rw [h.size_eq, hDeadlines]

/-- The text of INFO counts keys, whatever order they stand in. -/
theorem infoText_eq {as bs : List Database} (h : List.Forall₂ Table.Reordered as bs) :
    Server.infoText as = Server.infoText bs := by
  have hLines (n : Nat) : ((as.zipIdx n).flatMap fun e => Server.infoLine e.2 e.1) =
      (bs.zipIdx n).flatMap fun e => Server.infoLine e.2 e.1 := by
    induction h generalizing n with
    | nil => rfl
    | cons hSame _ ih =>
        rw [List.zipIdx_cons, List.zipIdx_cons, List.flatMap_cons, List.flatMap_cons, ih,
          infoLine_eq n hSame]
  unfold Server.infoText
  rw [hLines 0]

/-- INFO takes the expired keys of all databases out, and answers from what is left. -/
theorem info : Scripted now false (Server.info now) := by
  refine survey (fun dbs => .ok (.octets (Octets.ofText (Server.infoText dbs))))
    (fun as bs hSame => ?_) fun _ => rfl
  rw [infoText_eq hSame]

/-- The order of octet strings is total, so sorted keys stand in one order only. -/
theorem sortedKeys_eq {a b : Database} (h : a.Reordered b) :
    Scan.sortedKeys a = Scan.sortedKeys b := by
  have hPerm : (Scan.sortedKeys a).Perm (Scan.sortedKeys b) :=
    (Scan.perm_sortedKeys a).trans (h.keys_perm.trans (Scan.perm_sortedKeys b).symm)
  exact hPerm.eq_of_pairwise (fun x y _ _ hxy hyx => List.le_antisymm hxy hyx)
    (Scan.pairwise_sortedKeys a) (Scan.pairwise_sortedKeys b)

/-- The order of the keys does not show in the reply of a scan. -/
theorem planReply_eq (plan : Scan.Plan) (fits : Octets → Octets → Bool) {a b : Database}
    (h : a.Reordered b) : plan.reply fits a = plan.reply fits b := by
  have hAdmits : plan.admits fits a = plan.admits fits b := by
    funext key
    unfold Scan.Plan.admits
    rw [h.get?]
  unfold Scan.Plan.reply Scan.Plan.keys
  rw [h.size_eq, sortedKeys_eq h, hAdmits]

/-- SCAN takes the expired keys of its database out, and answers from the sorted keys that are
left. -/
theorem scan (cursor : Octets) (options : List Octets) :
    Scripted now false (Scan.scan now cursor options) := by
  unfold Scan.scan Scan.scanBy
  split
  · exact refuse .invalidCursor
  · refine given fun plan _ => withSelected fun i => count i (plan.reply Octets.fitsGlob)
      (fun a b hSame => planReply_eq plan _ hSame) fun db => ?_
    unfold Scan.Plan.reply
    split
    · trivial
    · rfl

/-! ## Function libraries -/

theorem withLibraries {next : Table Datum Datum → Step}
    (hNext : ∀ libraries, Scripted now written (next libraries)) :
    Scripted now written (Store.withLibraries next) := by
  refine consult (fun s => next s.libraries) ?_ fun s => hNext s.libraries
  intro s t hFrame
  rw [hFrame.libraries]

/-- FUNCTION LOAD consults the libraries, and refuses before it writes them. -/
theorem load (first code : Octets) : Scripted now false (Libraries.load first code) := by
  unfold Libraries.load
  cases Libraries.nameOf? code with
  | none => exact refuse .missingMetadata
  | some name =>
      refine withLibraries fun libraries => ?_
      dsimp only
      split
      · exact given fun shown _ => refuse (.libraryExists shown)
      · exact relabel _ rfl

theorem flush : Scripted now false Libraries.flush := relabel .empty rfl

theorem dump : Scripted now false Libraries.dump := by
  unfold Libraries.dump Libraries.dumpBy
  exact withLibraries fun _ => answer rfl

/-- FUNCTION RESTORE consults the libraries, and refuses before it writes them. -/
theorem restoreLibraries (payload : Octets) (policy? : Option Octets) :
    Scripted now false (Libraries.restore payload policy?) := by
  unfold Libraries.restore Libraries.restoreBy
  cases Payload.form.read? payload with
  | none => exact refuse .badPayload
  | some d =>
      cases d with
      | mapping ps =>
          exact withLibraries fun old => given fun libraries _ => relabel libraries rfl
      | _ => exact refuse .notAFunctionDump

/-- A call consults the libraries and writes nothing. -/
theorem call (function numkeys : Octets) (words : List Octets) :
    Scripted now false (Libraries.call function numkeys words) := by
  refine withLibraries fun libraries => ?_
  have hNever (d : Datum) : Libraries.called libraries function numkeys words ≠ .ok d := by
    intro hOk
    obtain ⟨n, -, hRest⟩ := ok_of_bind hOk
    split at hRest
    · cases hRest
    · split at hRest <;> cases hRest
  cases hCalled : Libraries.called libraries function numkeys words with
  | error h => exact error h
  | ok d => exact (hNever d hCalled).elim

/-! ## All commands -/

/-- ZADD has read all scores when it looks at its key. -/
theorem zadd (key : Octets) (words : List Octets) :
    Scripted now false (SortedSets.zadd now key words) := by
  unfold SortedSets.zadd
  split
  · exact refuse .syntaxError
  · exact given fun pairs hPairs =>
      onKey key (SortedSets.zaddStep_clean (SortedSets.scorePairs_readScores hPairs))

theorem geoadd (key : Octets) (words : List Octets) :
    Scripted now false (Places.geoadd now key words) := by
  unfold Places.geoadd
  dsimp only
  split
  · exact refuse .syntaxError
  · exact refuse .syntaxError
  · exact given fun places hPlaces =>
      onKey key (Places.geoaddStep_clean _ (Places.scorePairs_readPlaces hPlaces))

theorem hset (key : Octets) (words : List Octets) :
    Scripted now false (Hashes.hset now key words) := by
  unfold Hashes.hset
  split
  · exact refuse (.wrongArity .hset)
  · exact onKey key (Hashes.hsetStep_clean _)

theorem mset (words : List Octets) : Scripted now false (Strings.mset words) := by
  unfold Strings.mset
  split
  · exact refuse (.wrongArity .mset)
  · exact writeAll _

theorem ping (message? : Option Octets) : Scripted now false (Server.ping message?) := by
  cases message? with
  | none => exact answer rfl
  | some message => exact answer rfl

/-- A command that counts keys goes on from one to the next, as its step never refuses. -/
theorem countKeys {step : KeyStep} (hClean : KeyStep.Clean step) (hTotal : Total step)
    (keys : List Octets) : Scripted now false (Store.countKeys now step keys) :=
  onEach_then hClean hTotal keys fun _ _ => answer rfl

theorem listKeys {step : KeyStep} (hClean : KeyStep.Clean step) (hTotal : Total step)
    (keys : List Octets) : Scripted now false (Store.listKeys now step keys) :=
  onEach_then hClean hTotal keys fun _ _ => answer rfl

/-- The step of every type of command is a script, whatever the arguments. -/
theorem step (t : CommandType) (args : List Octets) :
    Scripted now false (Store.step now t args) := by
  unfold Store.step
  split
  · exact ping _
  · exact answer rfl
  · exact select_index _
  · exact info
  · exact dbsize
  · exact withSelected fun i => clear i rfl
  · exact countKeys Keys.delete_clean (fun _ => ⟨_, rfl⟩) _
  · exact countKeys Keys.exists?_clean (fun _ => ⟨_, rfl⟩) _
  · exact given fun seconds _ => onKey _ (Keys.expireStep_clean now seconds)
  · exact onKey _ (Keys.ttl_clean now)
  · exact onKey _ Keys.persist_clean
  · exact onKey _ Keys.type_clean
  · exact rename _ _
  · exact move _ _
  · exact copy _ _ _
  · exact scan _ _
  · exact onKey _ Backup.dump_clean
  · exact restore _ _ _ _
  · exact given fun plan _ => onKey _ (Strings.step_clean plan _)
  · exact onKey _ Strings.get_clean
  · exact onKey _ (Strings.getex_clean now _)
  · exact onKey _ (Strings.append_clean _)
  · exact onKey _ (Strings.add_clean 1)
  · exact given fun amount _ => onKey _ (Strings.add_clean (1 * amount))
  · exact onKey _ (Strings.add_clean (-1))
  · exact given fun amount _ => onKey _ (Strings.add_clean (-1 * amount))
  · exact mset _
  · exact listKeys Strings.peek_clean (fun _ => ⟨_, rfl⟩) _
  · exact onKey _ Strings.strlen_clean
  · exact hset _ _
  · exact onKey _ (Hashes.hget_clean _)
  · exact onKey _ (Hashes.hdel_clean _)
  · exact onKey _ Hashes.hgetall_clean
  · exact onKey _ (Hashes.hexists_clean _)
  · exact onKey _ Hashes.hlen_clean
  · exact onKey _ (Lists.pushStep_clean .left _)
  · exact onKey _ (Lists.pushStep_clean .right _)
  · exact onKey _ (Lists.popStep_clean .left)
  · exact onKey _ (Lists.popStep_clean .right)
  · exact onKey _ Lists.llen_clean
  · exact onKey _ (Lists.lrange_clean _ _)
  · exact given fun q _ => onKey _ (Lists.lposStep_clean q _)
  · exact onKey _ (Sets.sadd_clean _)
  · exact onKey _ (Sets.srem_clean _)
  · exact onKey _ Sets.smembers_clean
  · exact onKey _ (Sets.sismember_clean _)
  · exact onKey _ Sets.scard_clean
  · exact zadd _ _
  · exact onKey _ (SortedSets.zrem_clean _)
  · exact onKey _ (SortedSets.zscore_clean _)
  · exact onKey _ SortedSets.zcard_clean
  · exact given fun plan _ => onKey _ (SortedSets.zrangeStep_clean plan _ _)
  · exact given fun count? _ => onKey _ (SortedSets.zpopStep_clean .least (count?.getD 1))
  · exact given fun count? _ => onKey _ (SortedSets.zpopStep_clean .greatest (count?.getD 1))
  · exact geoadd _ _
  · exact load _ _
  · exact flush
  · exact dump
  · exact restoreLibraries _ _
  · exact call _ _ _
  · exact call _ _ _
  · exact refuse (.wrongArity _)

/-- Every type of command runs as a script, with any arguments. -/
theorem runType (t : CommandType) (args : List Octets) :
    Scripted now false (Store.runType now t args) := by
  unfold Store.runType
  split
  · exact step t args
  · exact refuse (.wrongArity t)

end Scripted

/-- Every command is a script. -/
theorem scripted_run (now : Float) (c : Command) : Scripted now false (Store.run now c) := by
  unfold Store.run
  dsimp only
  split
  · unfold Store.runCustom
    split
    · exact Scripted.runType _ _
    · exact Scripted.refuse _
  · exact Scripted.runType _ _

end BatchStore
