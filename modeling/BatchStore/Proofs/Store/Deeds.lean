import BatchStore.Proofs.Store.OneByOne
import BatchStore.Proofs.Store.Restored
import BatchStore.Proofs.Store.Transfers
import Mathlib.Data.List.Induction

/-!
# What was done to a key, command by command

A `Deed` is a command that was carried out, with the reading of the clock and the store that it
found. `deeds` has those of a submission, and `record` those of a timeline that lasted: a
transaction that fails is put back, so its commands are not among them. The deeds of a record are
`Linked`, each beginning with the store that the one before it left, and the last one leaves the
store that the timeline leaves (`linked_record`, `endOf_record`).

At a site, a key of a database, each deed sees an entry and leaves one. A record is `Steady` at a
site if time alone changes nothing there: each deed sees what the one before it left. So what holds
of the entry at a site can be shown deed by deed, whatever else is done in between (`Steady.holds`).
-/

namespace BatchStore

/-- A command that was carried out: when, and on which store. -/
structure Deed where
  now : Float
  command : Command
  before : Store

namespace Deed

/-- What the command answered. -/
def reply (d : Deed) : Reply := (Store.run d.now d.command d.before).1

/-- The store that the command left. -/
def after (d : Deed) : Store := (Store.run d.now d.command d.before).2

/-- What the command saw at a site. -/
def seen (site : Site) (d : Deed) : Option Entry := d.before.live? d.now site.1 site.2

/-- What was to be seen at a site when the command was done. -/
def left (site : Site) (d : Deed) : Option Entry := d.after.live? d.now site.1 site.2

/-- The command changed neither the value at a site nor its deadline. -/
def Keeps (site : Site) (d : Deed) : Prop := d.left site = d.seen site

instance (site : Site) (d : Deed) : Decidable (d.Keeps site) := inferInstanceAs (Decidable (_ = _))

end Deed

namespace Store

/-! ## Records -/

/-- The deeds of a submission, up to the one that ends it. -/
def deeds (now : Float) (atomic : Bool) : List Command → Store → List Deed
  | [], _ => []
  | c :: cs, s =>
    let d : Deed := ⟨now, c, s⟩
    d :: if goesOn atomic d.reply then deeds now atomic cs d.after else []

/-- The deeds of a timeline, without those that were put back. -/
def record : Timeline → Store → List Deed
  | [], _ => []
  | (now, b) :: rest, s =>
    let done := submission now b s
    (if fallen (b, done.1.1) then [] else deeds now b.atomic b.commands s) ++ record rest done.2

/-- The deeds of a timeline and of a submission that follows it, as far as this one came. -/
def recordWith (timeline : Timeline) (now : Float) (b : Submission) (s : Store) : List Deed :=
  record timeline s ++ deeds now b.atomic b.commands (history run timeline s).2

/-- The store that deeds lead to. -/
def endOf : Store → List Deed → Store
  | s, [] => s
  | _, d :: ds => endOf d.after ds

/-- Each deed begins with the store that the one before it left. -/
def Linked : Store → List Deed → Prop
  | _, [] => True
  | s, d :: ds => d.before = s ∧ Linked d.after ds

section Records

variable {s : Store} {n : Nat}

theorem Linked.append {as bs : List Deed} (ha : Linked s as) (hb : Linked (endOf s as) bs) :
    Linked s (as ++ bs) := by
  induction as generalizing s with
  | nil => exact hb
  | cons a as ih => exact ⟨ha.1, ih ha.2 hb⟩

theorem endOf_append (s : Store) (as bs : List Deed) :
    endOf s (as ++ bs) = endOf (endOf s as) bs := by
  induction as generalizing s with
  | nil => rfl
  | cons a as ih => exact ih a.after

theorem linked_deeds (now : Float) (atomic : Bool) (cs : List Command) (s : Store) :
    Linked s (deeds now atomic cs s) := by
  induction cs generalizing s with
  | nil => trivial
  | cons c cs ih =>
      refine ⟨rfl, ?_⟩
      split
      · exact ih _
      · trivial

theorem endOf_deeds (now : Float) (atomic : Bool) (cs : List Command) (s : Store) :
    endOf s (deeds now atomic cs s) = leftBy s (trace (run now) atomic cs s) := by
  induction cs generalizing s with
  | nil => rfl
  | cons c cs ih =>
      rw [deeds, trace]
      show endOf (Deed.after _) (if goesOn atomic (run now c s).1 then _ else _) = _
      split
      · exact ih _
      · rfl

/-- A submission that is not put back leaves the store that its commands lead to. -/
theorem submission_standing {now : Float} {b : Submission}
    (h : fallen (b, (submission now b s).1.1) = false) :
    (submission now b s).2 = endOf s (deeds now b.atomic b.commands s) := by
  obtain ⟨cs, atomic⟩ := b
  rw [endOf_deeds]
  cases atomic with
  | false =>
      have hLeft := pipeline_left (run now) cs s
      rcases hRun : pipeline (run now) cs s with ⟨f | replies, after⟩ <;> rw [hRun] at hLeft
      · rw [submission, submissionBy_pipeline_error hRun]
        exact hLeft
      · rw [submission, submissionBy_pipeline_ok hRun]
        exact hLeft
  | true =>
      have hLeft := attempt_left (run now) 0 cs s
      rcases hRun : attempt (run now) 0 cs s with ⟨stop | replies, after⟩ <;> rw [hRun] at hLeft
      · rcases hStop : stop.halt with r | f
        · rw [submission, submissionBy_attempt_refused hStop hRun] at h
          cases h
        · rw [submission, submissionBy_attempt_faulted hStop hRun] at h
          cases h
      · rw [submission, submissionBy_attempt_ok hRun]
        exact hLeft

/-- A timeline leaves the store that its record leads to. -/
theorem endOf_record (timeline : Timeline) (s : Store) :
    endOf s (record timeline s) = (history run timeline s).2 := by
  induction timeline generalizing s with
  | nil => rfl
  | cons e rest ih =>
      obtain ⟨now, b⟩ := e
      show endOf s ((if fallen (b, (submission now b s).1.1) then [] else _) ++ _) =
        (history run rest (submission now b s).2).2
      rw [endOf_append, ← ih]
      cases hFallen : fallen (b, (submission now b s).1.1) with
      | true => rw [if_pos rfl, submission_fallen hFallen, endOf]
      | false => rw [if_neg Bool.false_ne_true, ← submission_standing hFallen]

theorem linked_record (timeline : Timeline) (s : Store) : Linked s (record timeline s) := by
  induction timeline generalizing s with
  | nil => trivial
  | cons e rest ih =>
      obtain ⟨now, b⟩ := e
      show Linked s ((if fallen (b, (submission now b s).1.1) then [] else _) ++ _)
      cases hFallen : fallen (b, (submission now b s).1.1) with
      | true =>
          rw [if_pos rfl, submission_fallen hFallen]
          exact ih s
      | false =>
          rw [if_neg Bool.false_ne_true]
          refine (linked_deeds ..).append ?_
          rw [← submission_standing hFallen]
          exact ih _

theorem linked_recordWith (timeline : Timeline) (now : Float) (b : Submission) (s : Store) :
    Linked s (recordWith timeline now b s) := by
  refine (linked_record timeline s).append ?_
  rw [endOf_record]
  exact linked_deeds ..

/-- Every deed finds as many databases as there were, and one of them selected. -/
theorem Linked.shaped {ds : List Deed} (hLinked : Linked s ds) (hs : s.Shaped n) :
    ∀ d ∈ ds, d.before.Shaped n := by
  induction ds generalizing s with
  | nil => exact fun _ h => nomatch h
  | cons d ds ih =>
      obtain ⟨rfl, hRest⟩ := hLinked
      exact List.forall_mem_cons.2 ⟨hs, ih hRest (run_shaped d.now d.command hs)⟩

theorem Linked.selected {ds : List Deed} (hLinked : Linked s ds) (hs : s.Reachable) :
    ∀ d ∈ ds, d.before.selected < d.before.databases.length := by
  intro d hd
  have hShape := hLinked.shaped ⟨rfl, reachable_selected hs⟩ d hd
  rw [hShape.count]
  exact hShape.selected

end Records

end Store

/-! ## One deed at a site -/

namespace Deed

variable {d : Deed} {site : Site} {step : KeyStep} {h : Halt} {answer : Datum} {e? : Option Entry}

/-- A command that does nothing keeps everything. -/
theorem keeps_of_after (h : d.after = d.before) : d.Keeps site := by
  unfold Keeps left seen
  rw [h]

/-- A command on the key that fails keeps the site. -/
theorem onKey_error (hSite : d.before.selected = site.1)
    (hRun : Store.run d.now d.command d.before = Store.onKey d.now site.2 step d.before)
    (hStep : step (d.seen site) = .error h) : d.reply = .error h ∧ d.Keeps site := by
  unfold Keeps reply left after seen at *
  rw [← hSite] at hStep
  rw [hRun, Store.onKey_error hStep, Store.live?_settle]
  exact ⟨rfl, rfl⟩

/-- A command on the key that goes well writes what its step says. -/
theorem onKey_ok (hThere : d.before.selected < d.before.databases.length)
    (hSite : d.before.selected = site.1)
    (hRun : Store.run d.now d.command d.before = Store.onKey d.now site.2 step d.before)
    (hStep : step (d.seen site) = .ok (answer, e?)) :
    d.reply = .ok answer ∧ d.after.held? site.1 site.2 = e? ∧
      d.left site = Entry.shown? d.now e? := by
  have hHeld : d.after.held? site.1 site.2 = e? := by
    unfold after
    unfold seen at hStep
    rw [← hSite] at hStep ⊢
    rw [hRun, Store.onKey_ok hStep, Store.held?_setEntry, Store.length_settle,
      if_pos ⟨rfl, hThere, rfl⟩]
  refine ⟨?_, hHeld, ?_⟩
  · unfold reply
    unfold seen at hStep
    rw [← hSite] at hStep
    rw [hRun, Store.onKey_ok hStep]
  · unfold left
    rw [Store.live?_eq_shown?, hHeld]

/-- What a deed sees has not expired. -/
theorem shown?_seen (d : Deed) (site : Site) : Entry.shown? d.now (d.seen site) = d.seen site :=
  Database.shown?_shown? d.now _

end Deed

/-! ## Many deeds at a site -/

/-- Time alone changes nothing at a site: each deed sees what the one before it left. -/
def Steady (site : Site) : Option Entry → List Deed → Prop
  | _, [] => True
  | e?, d :: ds => d.seen site = e? ∧ Steady site (d.left site) ds

instance Steady.decidable (site : Site) :
    (e? : Option Entry) → (ds : List Deed) → Decidable (Steady site e? ds)
  | _, [] => .isTrue trivial
  | _, d :: ds =>
    have := Steady.decidable site (d.left site) ds
    inferInstanceAs (Decidable (_ ∧ _))

/-- What deeds leave at a site. -/
def lastLeft (site : Site) : Option Entry → List Deed → Option Entry
  | e?, [] => e?
  | _, d :: ds => lastLeft site (d.left site) ds

namespace Steady

variable {site : Site} {start : Option Entry} {log front back : List Deed} {d : Deed}

@[simp] theorem lastLeft_append (start : Option Entry) (front back : List Deed) :
    lastLeft site start (front ++ back) = lastLeft site (lastLeft site start front) back := by
  induction front generalizing start with
  | nil => rfl
  | cons d ds ih => exact ih _

theorem seen_eq (h : Steady site start log) (hHere : log = front ++ d :: back) :
    d.seen site = lastLeft site start front := by
  subst hHere
  induction front generalizing start with
  | nil => exact h.1
  | cons d' ds ih => exact ih h.2

/-- What holds of the entry at first, and still holds after each deed of which it held before, holds
all along. -/
theorem holds (good : List Deed → Option Entry → Prop) (h : Steady site start log)
    (hStart : good [] start)
    (hStep : ∀ front d back, log = front ++ d :: back → good front (d.seen site) →
      good (front ++ [d]) (d.left site))
    (hSplit : log = front ++ back) : good front (lastLeft site start front) := by
  -- From the back, since what holds may depend on all deeds so far.
  induction front using List.reverseRecOn generalizing back with
  | nil => exact hStart
  | append_singleton front d ih =>
      have hHere : log = front ++ d :: back := by simpa using hSplit
      have hBefore := ih hHere
      rw [← h.seen_eq hHere] at hBefore
      rw [lastLeft_append]
      exact hStep front d back hHere hBefore

end Steady

end BatchStore
