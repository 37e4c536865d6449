import BatchStore.Proofs.Batch.Requests
import BatchStore.Proofs.Number.Digits
import BatchStore.Proofs.Store.Deeds
import Mathlib.Algebra.BigOperators.Group.List.Basic

/-!
# Counters add up

INCR, INCRBY, DECR and DECRBY read the text at a key as a whole number, add to it and write the sum
back in digits. Each goes from digits to a number and back again, and `Strings.add_short` says that
nothing is lost on the way while the sum is short enough to be written.

A `Counting` is a run in which nothing else touches the key. There each reply is the number at first
with all amounts so far, the text is that of the last reply, and the deadline stays
(`Counting.standing`). So what is left depends on the sum of the amounts, and not on their order.
-/

namespace BatchStore

/-- The number at a key; a missing key counts as zero. -/
def number? : Option Entry → Option Int
  | none => some 0
  | some e => e.value.string?.bind Number.int?

/-- What a command adds to the number at a key, if that is what it is for and it can be read. -/
def Command.amount? (key : Octets) (c : Command) : Option Int :=
  match c.request? with
  | some (.incr, [k]) => if k = key then some 1 else none
  | some (.incrby, [k, w]) => if k = key then Number.int? w else none
  | some (.decr, [k]) => if k = key then some (-1) else none
  | some (.decrby, [k, w]) => if k = key then (Number.int? w).map (- ·) else none
  | _ => none

/-- What a deed adds to the number at a site. -/
def Deed.amount? (site : Site) (d : Deed) : Option Int :=
  if d.before.selected = site.1 then d.command.amount? site.2 else none

/-- The amounts that deeds add at a site, in order. -/
def amounts (site : Site) (log : List Deed) : List Int := log.filterMap (·.amount? site)

/-- A number in digits, with the deadline of what was there. -/
def counted (start : Option Entry) (n : Int) : Entry :=
  .replace start (.string (Octets.ofText (toString n)))

/-- What is left at a key when amounts have been added to its number. -/
def tallied (start : Option Entry) (n : Int) (added : List Int) : Option Entry :=
  if added = [] then start else some (counted start (n + added.sum))

/-! ## One step -/

namespace Strings

open Number

variable {seen : Option Entry} {n amount : Int}

theorem number?_counted (start : Option Entry) (h : IsShort n) :
    number? (some (counted start n)) = some n := h.int?_toString

/-- A short sum is answered, and is written over the number that was read. -/
theorem add_short (hNumber : number? seen = some n) (hShort : IsShort (n + amount)) :
    add amount seen = .ok (.int (n + amount), some (counted seen (n + amount))) := by
  have hWrite : writeInt seen (n + amount) =
      .ok (.int (n + amount), some (counted seen (n + amount))) := by
    unfold writeInt
    rw [hShort.intText?]
    rfl
  cases seen with
  | none =>
      obtain rfl : 0 = n := Option.some.inj hNumber
      rw [Int.zero_add] at hWrite ⊢
      simp only [add, expect, bind, Except.bind, hWrite]
  | some e =>
      obtain ⟨w, hText, hRead⟩ := Option.bind_eq_some_iff.1 hNumber
      simp only [add, expect, hText, readInt_of_int? hRead, bind, Except.bind, hWrite]

/-- What is not a number is refused. -/
theorem add_refused (hNumber : number? seen = none) (amount : Int) :
    ∃ e, seen = some e ∧
      add amount seen = refuse (if e.value.string?.isSome then .notAnInteger else .wrongType) := by
  cases seen with
  | none => cases hNumber
  | some e =>
      refine ⟨e, rfl, ?_⟩
      cases hText : e.value.string? with
      | none =>
          simp only [add, expect, hText, bind, Except.bind]
          rfl
      | some w =>
          have hRead : int? w = none := by simpa [number?, hText] using hNumber
          simp only [add, expect, readInt, hText, hRead, bind, Except.bind]
          rfl

end Strings

namespace Store

variable {now : Float} {c : Command} {key : Octets} {a : Int}

/-- An amount that can be read is added with its sign. -/
theorem addRead_of_int? {w : Octets} {amount : Int} (h : Number.int? w = some amount) (sign : Int)
    (s : Store) : addRead now key w sign s = onKey now key (Strings.add (sign * amount)) s := by
  unfold addRead
  rw [readInt_of_int? h]
  rfl

/-- A command with an amount adds it at the key. -/
theorem run_of_amount (h : c.amount? key = some a) (s : Store) :
    run now c s = onKey now key (Strings.add a) s := by
  unfold Command.amount? at h
  split at h
  · rename_i k hRequest
    obtain ⟨rfl, rfl⟩ : k = key ∧ 1 = a := by simpa using h
    rw [run_of_request? hRequest]
    rfl
  · rename_i k w hRequest
    obtain ⟨rfl, hRead⟩ : k = key ∧ Number.int? w = some a := by simpa using h
    rw [run_of_request? hRequest]
    show addRead now k w 1 s = _
    rw [addRead_of_int? hRead, Int.one_mul]
  · rename_i k hRequest
    obtain ⟨rfl, rfl⟩ : k = key ∧ -1 = a := by simpa using h
    rw [run_of_request? hRequest]
    rfl
  · rename_i k w hRequest
    obtain ⟨rfl, b, hRead, rfl⟩ : k = key ∧ ∃ b, Number.int? w = some b ∧ -b = a := by
      simpa using h
    rw [run_of_request? hRequest]
    show addRead now k w (-1) s = _
    rw [addRead_of_int? hRead, Int.neg_one_mul]
  · cases h

/-- An amount that is not a whole number is refused, and nothing is looked at. -/
theorem run_of_no_amount {t : CommandType} {w : Octets} (ht : t = .incrby ∨ t = .decrby)
    (hRequest : c.request? = some (t, [key, w])) (hRead : Number.int? w = none) (s : Store) :
    run now c s = (refuse .notAnInteger, s) := by
  rw [run_of_request? hRequest]
  rcases ht with rfl | rfl <;>
    · show addRead now key w _ s = _
      unfold addRead readInt
      rw [hRead]
      rfl

end Store

/-! ## A run -/

/-- A run in which a counter is counted up and down, and is otherwise left alone: time does not
change it, nor does any other command, and no sum is too long to be written. -/
structure Counting (site : Site) (start : Option Entry) (n : Int) (log : List Deed) : Prop where
  number : number? start = some n
  steady : Steady site start log
  others : ∀ d ∈ log, d.amount? site = none → d.Keeps site
  short : ∀ i < (amounts site log).length,
    Number.IsShort (n + ((amounts site log).take (i + 1)).sum)

namespace Counting

variable {site : Site} {start : Option Entry} {n a : Int} {log front back : List Deed} {d : Deed}

theorem amounts_concat (site : Site) (front : List Deed) (d : Deed) :
    amounts site (front ++ [d]) = amounts site front ++ (d.amount? site).toList := by
  unfold amounts
  rw [List.filterMap_append]
  cases h : d.amount? site <;> simp [h]

/-- The sum with a deed is among those that can be written. -/
theorem short_here (h : Counting site start n log) (hHere : log = front ++ d :: back)
    (hAmount : d.amount? site = some a) :
    Number.IsShort (n + (amounts site front).sum + a) := by
  have hAmounts : amounts site log = amounts site front ++ a :: amounts site back := by
    simp [hHere, amounts, hAmount]
  have hTake : (amounts site log).take ((amounts site front).length + 1) =
      amounts site front ++ [a] := by
    rw [hAmounts, List.take_append, List.take_of_length_le (by omega)]
    simp
  have hShort := h.short (amounts site front).length (by rw [hAmounts]; simp)
  rwa [hTake, List.sum_append, List.sum_singleton, ← Int.add_assoc] at hShort

/-- A deed with an amount carries out the step of a counter. -/
theorem run_of_amount (hAmount : d.amount? site = some a) :
    d.before.selected = site.1 ∧
      Store.run d.now d.command d.before =
        Store.onKey d.now site.2 (Strings.add a) d.before := by
  unfold Deed.amount? at hAmount
  by_cases hSite : d.before.selected = site.1
  · rw [if_pos hSite] at hAmount
    exact ⟨hSite, Store.run_of_amount hAmount d.before⟩
  · rw [if_neg hSite] at hAmount
    cases hAmount

/-- Counting on from what has been counted. -/
theorem counted_tallied (start : Option Entry) (n m : Int) (added : List Int) :
    counted (tallied start n added) m = counted start m := by
  unfold tallied
  by_cases hNone : added = []
  · rw [if_pos hNone]
  · rw [if_neg hNone]
    rfl

/-- What a deed with an amount does to a counter. -/
theorem step (hThere : d.before.selected < d.before.databases.length)
    (hAmount : d.amount? site = some a) {added : List Int}
    (hSeen : d.seen site = tallied start n added) {m : Int}
    (hNumber : number? (d.seen site) = some m) (hShort : Number.IsShort (m + a)) :
    d.reply = .ok (.int (m + a)) ∧
      d.after.held? site.1 site.2 = some (counted start (m + a)) ∧
      d.left site = some (counted start (m + a)) := by
  obtain ⟨hSite, hRun⟩ := run_of_amount hAmount
  obtain ⟨hReply, hHeld, hLeft⟩ :=
    Deed.onKey_ok hThere hSite hRun (Strings.add_short hNumber hShort)
  have hSame : counted (d.seen site) (m + a) = counted start (m + a) := by
    rw [hSeen, counted_tallied]
  have hShown : d.left site = some (counted (d.seen site) (m + a)) :=
    hLeft.trans (Entry.shown?_replace (d.shown?_seen site) _)
  rw [hSame] at hHeld hShown
  exact ⟨hReply, hHeld, hShown⟩

/-- At every point of a run the number at the key is the first one with all amounts so far, and
what holds it is what they leave. -/
theorem standing (h : Counting site start n log)
    (hThere : ∀ d ∈ log, d.before.selected < d.before.databases.length)
    (hSplit : log = front ++ back) :
    number? (lastLeft site start front) = some (n + (amounts site front).sum) ∧
      lastLeft site start front = tallied start n (amounts site front) := by
  refine h.steady.holds (fun front e? => number? e? = some (n + (amounts site front).sum) ∧
    e? = tallied start n (amounts site front)) ?_ ?_ hSplit
  · exact ⟨by simp [amounts, h.number], rfl⟩
  · rintro front d back hHere ⟨hNumber, hEntry⟩
    have hMem : d ∈ log := by simp [hHere]
    rw [amounts_concat]
    cases hAmount : d.amount? site with
    | none =>
        rw [h.others d hMem hAmount, Option.toList_none, List.append_nil]
        exact ⟨hNumber, hEntry⟩
    | some a =>
        have hShort := h.short_here hHere hAmount
        obtain ⟨-, -, hLeft⟩ := step (hThere d hMem) hAmount hEntry hNumber hShort
        have hSum : n + (amounts site front ++ [a]).sum = n + (amounts site front).sum + a := by
          rw [List.sum_append, List.sum_singleton, Int.add_assoc]
        rw [hLeft, Option.toList_some, hSum, tallied, if_neg (by simp), hSum]
        exact ⟨Strings.number?_counted start hShort, rfl⟩

/-- Each deed with an amount answers the sum so far and writes it in digits. -/
theorem step_here (h : Counting site start n log)
    (hThere : ∀ d ∈ log, d.before.selected < d.before.databases.length)
    (hHere : log = front ++ d :: back) (hAmount : d.amount? site = some a) :
    let sum := n + (amounts site front).sum + a
    d.reply = .ok (.int sum) ∧ d.after.held? site.1 site.2 = some (counted start sum) ∧
      Number.int? (Octets.ofText (toString sum)) = some sum := by
  intro sum
  obtain ⟨hNumber, hEntry⟩ := h.standing hThere hHere
  rw [← h.steady.seen_eq hHere] at hNumber hEntry
  have hShort := h.short_here hHere hAmount
  obtain ⟨hReply, hHeld, -⟩ := step (hThere d (by simp [hHere])) hAmount hEntry hNumber hShort
  exact ⟨hReply, hHeld, hShort.int?_toString⟩

end Counting

theorem deadline_tallied (start : Option Entry) (n : Int) (added : List Int) :
    (tallied start n added).bind (·.deadline?) = start.bind (·.deadline?) := by
  unfold tallied
  by_cases hNone : added = []
  · rw [if_pos hNone]
  · rw [if_neg hNone]
    rfl

/-- The order of the amounts does not matter. -/
theorem tallied_perm (start : Option Entry) (n : Int) {as bs : List Int} (h : as.Perm bs) :
    tallied start n as = tallied start n bs := by
  unfold tallied
  rw [h.sum_eq]
  by_cases hNone : as = []
  · rw [if_pos hNone, if_pos (by simpa [hNone] using h)]
  · rw [if_neg hNone, if_neg (by rintro rfl; exact hNone (List.perm_nil.1 h))]

/-! ## The calls of a batch -/

/-- The calls that count ask for their amounts, as long as these can be written. -/
theorem Call.request_counts (cluster : Bool) {key : Datum} {k : Arg} {a : Int}
    (hKey : Arg.check key = .ok k) (hShort : Number.IsShort a) :
    ((Call.incr key).request cluster = .ok (.incr, [k]) ∧
        (Command.mk .incr [k]).amount? k.toOctets = some 1) ∧
      ((Call.decr key).request cluster = .ok (.decr, [k]) ∧
        (Command.mk .decr [k]).amount? k.toOctets = some (-1)) ∧
      ((Call.incrby key (.int a)).request cluster = .ok (.incrby, [k, .text (toString a)]) ∧
        (Command.mk .incrby [k, .text (toString a)]).amount? k.toOctets = some a) ∧
      ((Call.decrby key (.int a)).request cluster = .ok (.decrby, [k, .text (toString a)]) ∧
        (Command.mk .decrby [k, .text (toString a)]).amount? k.toOctets = some (-a)) := by
  have hRead := hShort.int?_toString
  have hAdd : (ArgList.add [k] (.int a)).toExcept = .ok [k, .text (toString a)] := by
    simp [ArgList.add, ArgList.partsOf, hShort.wholeText, ArgList.Added.ofLeaf,
      ArgList.Added.toExcept, Except.map]
  refine ⟨⟨?_, ?_⟩, ⟨?_, ?_⟩, ⟨?_, ?_⟩, ?_, ?_⟩
  · simp only [request, onKey, hKey]
    rfl
  · simp [Command.amount?, Command.request?]
  · simp only [request, onKey, hKey]
    rfl
  · simp [Command.amount?, Command.request?]
  · simp only [request, onKeyNumber, hKey, hAdd, bind, Except.bind]
    rfl
  · simpa [Command.amount?, Command.request?, Arg.toOctets] using hRead
  · simp only [request, onKeyNumber, hKey, hAdd, bind, Except.bind]
    rfl
  · simpa [Command.amount?, Command.request?, Arg.toOctets] using hRead

/-! ## What is refused -/

namespace Deed

variable {site : Site} {d : Deed}

/-- An amount that is not a whole number is refused, and the key keeps what it holds. -/
theorem amount_refused {t : CommandType} {w : Octets} (ht : t = .incrby ∨ t = .decrby)
    (hRequest : d.command.request? = some (t, [site.2, w])) (hRead : Number.int? w = none) :
    d.reply = refuse .notAnInteger ∧ d.Keeps site := by
  have hRun : Store.run d.now d.command d.before = (refuse .notAnInteger, d.before) :=
    Store.run_of_no_amount ht hRequest hRead d.before
  refine ⟨?_, keeps_of_after ?_⟩
  · rw [reply, hRun]
  · rw [after, hRun]

/-- A value that is not a whole number is refused, and the key keeps it. -/
theorem number_refused {a : Int} (hAmount : d.amount? site = some a)
    (hNumber : number? (d.seen site) = none) :
    ∃ e, d.seen site = some e ∧
      d.reply = refuse (if e.value.string?.isSome then .notAnInteger else .wrongType) ∧
      d.Keeps site := by
  obtain ⟨hSite, hRun⟩ := Counting.run_of_amount hAmount
  obtain ⟨e, hSeen, hRefused⟩ := Strings.add_refused hNumber a
  exact ⟨e, hSeen, onKey_error hSite hRun hRefused⟩

end Deed

/-- A counter, from what it holds at first, in any submissions from any reachable store on.

* Each command that counts answers the first number with all amounts so far, and writes this in
  digits, which are read as the same number again. The deadline stays.
* At each point the amounts so far have been added up. A run with the same amounts in another order
  leaves the same.
* The calls that count ask for their amounts.
* An amount or a value that is not a whole number is refused, and the key keeps what it holds. -/
theorem counters_add_up (site : Site) (start : Option Entry) (n : Int) :
    (∀ (s : Store) (timeline : Timeline) (now : Float) (b : Submission), s.Reachable →
      let log := Store.recordWith timeline now b s
      Counting site start n log →
      (∀ front d back a, log = front ++ d :: back → d.amount? site = some a →
        let sum := n + (amounts site front).sum + a
        d.reply = .ok (.int sum) ∧
          d.after.held? site.1 site.2 = some
            { value := .string (Octets.ofText (toString sum))
              deadline? := start.bind (·.deadline?) } ∧
          Number.int? (Octets.ofText (toString sum)) = some sum) ∧
      (∀ front back, log = front ++ back →
        lastLeft site start front = tallied start n (amounts site front) ∧
          (lastLeft site start front).bind (·.deadline?) = start.bind (·.deadline?)) ∧
      ∀ (s' : Store) (timeline' : Timeline) (now' : Float) (b' : Submission), s'.Reachable →
        let log' := Store.recordWith timeline' now' b' s'
        Counting site start n log' → (amounts site log').Perm (amounts site log) →
        lastLeft site start log' = lastLeft site start log) ∧
    (∀ (cluster : Bool) (key : Datum) (k : Arg) (a : Int), Arg.check key = .ok k →
      Number.IsShort a →
      ((Call.incr key).request cluster = .ok (.incr, [k]) ∧
          (Command.mk .incr [k]).amount? k.toOctets = some 1) ∧
        ((Call.decr key).request cluster = .ok (.decr, [k]) ∧
          (Command.mk .decr [k]).amount? k.toOctets = some (-1)) ∧
        ((Call.incrby key (.int a)).request cluster = .ok (.incrby, [k, .text (toString a)]) ∧
          (Command.mk .incrby [k, .text (toString a)]).amount? k.toOctets = some a) ∧
        ((Call.decrby key (.int a)).request cluster = .ok (.decrby, [k, .text (toString a)]) ∧
          (Command.mk .decrby [k, .text (toString a)]).amount? k.toOctets = some (-a))) ∧
    ∀ d : Deed,
      (∀ (t : CommandType) (w : Octets), t = .incrby ∨ t = .decrby →
        d.command.request? = some (t, [site.2, w]) → Number.int? w = none →
        d.reply = refuse .notAnInteger ∧ d.Keeps site) ∧
      ∀ a, d.amount? site = some a → number? (d.seen site) = none →
        ∃ e, d.seen site = some e ∧
          d.reply = refuse (if e.value.string?.isSome then .notAnInteger else .wrongType) ∧
          d.Keeps site := by
  refine ⟨?_, fun cluster key k a => Call.request_counts cluster, fun d =>
    ⟨fun t w => Deed.amount_refused, fun a => Deed.number_refused⟩⟩
  intro s timeline now b hs log hCounting
  have hThere := (Store.linked_recordWith timeline now b s).selected hs
  refine ⟨fun front d back a hHere hAmount => hCounting.step_here hThere hHere hAmount, ?_, ?_⟩
  · intro front back hSplit
    have hLeft := (hCounting.standing hThere hSplit).2
    exact ⟨hLeft, by rw [hLeft, deadline_tallied]⟩
  · intro s' timeline' now' b' hs' log' hCounting' hPerm
    have hThere' := (Store.linked_recordWith timeline' now' b' s').selected hs'
    have hLeft := (hCounting.standing hThere (List.append_nil _).symm).2
    have hLeft' := (hCounting'.standing hThere' (List.append_nil _).symm).2
    rw [hLeft, hLeft', tallied_perm start n hPerm]

/-- A counter with a deadline is counted up by one and down by seven, in two submissions. -/
theorem counters_add_up_down :
    let set : Submission := ⟨[⟨.set, [.text "k", .text "5", .text "EXAT", .text "90"]⟩], true⟩
    let up : Submission := ⟨[⟨.incr, [.text "k"]⟩, ⟨.ping, []⟩], false⟩
    let down : Submission := ⟨[⟨.decrby, [.text "k", .text "7"]⟩], true⟩
    let s := (Store.history Store.run [(0.0, set)] { databases := [.empty] }).2
    let start : Entry := { value := .string [53], deadline? := some 90.0 }
    let log := Store.recordWith [(1.0, up)] 2.0 down s
    s.Reachable ∧ Counting (0, [107]) (some start) 5 log ∧ amounts (0, [107]) log = [1, -7] ∧
      lastLeft (0, [107]) (some start) log =
        some { value := .string [45, 49], deadline? := some 90.0 } ∧
      Arg.check (.text "k") = .ok (.text "k") ∧
      (Call.decrby (.text "k") (.int 7)).request false =
        .ok (.decrby, [.text "k", .text "7"]) := by
  intro set up down s start log
  have hReachable : s.Reachable := ⟨1, _, _, rfl, rfl⟩
  have hAmounts : amounts (0, [107]) log = [1, -7] := by decide +kernel
  have hCounting : Counting (0, [107]) (some start) 5 log :=
    { number := by decide +kernel
      steady := by decide +kernel
      others := by decide +kernel
      short := by decide +kernel }
  obtain ⟨hRuns, hCalls, -⟩ := counters_add_up (0, [107]) (some start) 5
  obtain ⟨-, hLeft, -⟩ := hRuns s [(1.0, up)] 2.0 down hReachable hCounting
  have hEnd := (hLeft log [] (List.append_nil _).symm).1
  rw [hAmounts] at hEnd
  refine ⟨hReachable, hCounting, hAmounts, hEnd.trans (by decide +kernel), rfl, ?_⟩
  exact (hCalls false (.text "k") (.text "k") 7 rfl (by decide +kernel)).2.2.2.1

end BatchStore
