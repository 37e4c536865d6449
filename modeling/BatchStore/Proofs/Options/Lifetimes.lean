import BatchStore.Proofs.Options.Moments
import BatchStore.Proofs.Options.Writes
import BatchStore.Proofs.Store.Pipeline
import BatchStore.Proofs.Store.Request
import BatchStore.Proofs.Store.Restored

/-!
# Expiries that callers build, at the store

Callers build an expiry from a span of time, from a date, or as one of the two that carry no
number. Its number is looked at twice: where the words are written it must not be below zero, and
the store asks a lifetime from now on to be above zero. `Store.built_expiry_accepted` lines the two
up for SET and GETEX. With an expiry that was written they answer what they answer without one,
at every store and clock reading, and nothing else than the deadline hangs on it. The exception is
a span of less than a millisecond that is not negative: zero is written for it, which the store
refuses.
-/

namespace BatchStore

open Number

/-! ## What is built -/

namespace Expiry

/-- The expiries that have a constructor of their own. A span is one that can be kept. -/
inductive Built : Expiry → Prop
  | within {micros : Int} {span : Span} (h : Span.ofMicros? micros = .ok span) :
      Built (Expiry.within span)
  | upTo {t : CivilTime} {e : Expiry} (h : Expiry.upTo? t = .ok e) : Built e
  | keepExisting : Built Expiry.keepExisting
  | persist : Built Expiry.persist

/-- A lifetime of less than a millisecond from now on. -/
def IsBrief (e : Expiry) : Prop := ∃ span : Int, e = within span ∧ 0 ≤ span ∧ span < 1000

theorem within_typed (span : Span) : (within span).IsTyped := by
  unfold within
  split
  · exact ⟨_, rfl⟩
  · exact ⟨_, rfl⟩

theorem Built.typed {e : Expiry} (h : e.Built) : e.IsTyped := by
  cases h with
  | within => exact within_typed _
  | upTo h =>
      obtain ⟨m, -, h⟩ := ok_of_bind h
      cases h
      exact ⟨0, rfl⟩
  | keepExisting | persist => exact ⟨0, rfl⟩

/-- Where words are written, the number is not below zero. -/
theorem amount_nonneg {e : Expiry} (hTyped : e.IsTyped) {allowed : List ExpiryType}
    {words : ArgList} (h : e.toArgs allowed = .ok words)
    (hSets : e.type.keyword.setsDeadline = true) : 0 ≤ e.amount := by
  have hNumbered : ∃ time, e.time = .ok time ∧ compareNumber .less time (.int 0) = .ok false := by
    unfold toArgs at h
    split at h
    · cases h
    · cases hType : e.type <;> rw [hType] at h hSets <;> try cases hSets
      all_goals
        obtain ⟨time, hTime, hAfter⟩ := ok_of_bind h
        obtain ⟨negative, hNegative, hAfter⟩ := ok_of_bind hAfter
        cases negative with
        | true => cases hAfter
        | false => exact ⟨time, hTime, hNegative⟩
  obtain ⟨time, hTime, hNegative⟩ := hNumbered
  rw [time_typed hTyped hTime, compareNumber_less] at hNegative
  injection hNegative with hNegative
  exact Int.not_lt.1 (of_decide_eq_false hNegative)

theorem amount_within (span : Int) :
    (within span).amount = if span % 1000000 = 0 then span / 1000000 else span / 1000 := by
  unfold within
  by_cases hWhole : span % 1000000 = 0
  · rw [if_pos hWhole, if_pos (beq_iff_eq.2 hWhole)]
    rfl
  · rw [if_neg hWhole, if_neg (mt beq_iff_eq.1 hWhole)]
    rfl

/-- Of the spans that are written, the brief ones are those written as zero. -/
theorem isBrief_within_iff {span : Int} (hLow : 0 ≤ (within span).amount) :
    (within span).IsBrief ↔ (within span).amount ≤ 0 := by
  constructor
  · rintro ⟨brief, hSame, hFrom, hTo⟩
    rw [hSame, amount_within]
    split <;> omega
  · intro hHigh
    have hRange : 0 ≤ span ∧ span < 1000 := by
      rw [amount_within] at hLow hHigh
      by_cases hWhole : span % 1000000 = 0
      · rw [if_pos hWhole] at hLow hHigh
        omega
      · rw [if_neg hWhole] at hLow hHigh
        omega
    exact ⟨span, rfl, hRange⟩

theorem type_within (span : Int) :
    (within span).type = .seconds ∨ (within span).type = .milliseconds := by
  unfold within
  split
  · exact .inl rfl
  · exact .inr rfl

theorem ofMicros?_lt {micros span : Int} (h : Span.ofMicros? micros = .ok span) :
    span < 10 ^ 20 := by
  unfold Span.ofMicros? at h
  dsimp only at h
  split at h
  · cases h
  · split at h
    · cases h
    · rename_i hLong
      cases h
      simp only [Bool.or_eq_true, decide_eq_true_eq] at hLong
      omega

/-- The number of an expiry that was built is not past the doubles. -/
theorem Built.amount_lt {e : Expiry} (h : e.Built) : (e.amount : ℚ) < limit := by
  have hSmall {n : Int} (hn : n < 10 ^ 20) : (n : ℚ) < limit := by
    have hCast : (n : ℚ) < ((10 ^ 20 : Int) : ℚ) := Int.cast_lt.2 hn
    exact lt_limit (k := 30) (hCast.trans (by norm_num)) (by norm_num)
  cases h with
  | @within micros span h =>
      have hShort := ofMicros?_lt h
      apply hSmall
      rw [amount_within]
      split <;> omega
  | upTo h =>
      obtain ⟨m, -, h⟩ := ok_of_bind h
      cases h
      split
      · exact cut_lt _
      · exact cut_lt _
  | keepExisting | persist => exact hSmall (by decide)

/-- The store works the deadline out, unless the lifetime is brief. -/
theorem Built.deadline {e : Expiry} (h : e.Built) {allowed : List ExpiryType} {words : ArgList}
    (hWords : e.toArgs allowed = .ok words) (now : Float) :
    (¬ e.IsBrief → ∃ t?, e.deadline? now = .ok t?) ∧
      (e.IsBrief → e.deadline? now = refuse .invalidExpireTime) := by
  by_cases hSets : e.type.keyword.setsDeadline = true
  · have hLow := amount_nonneg h.typed hWords hSets
    have hHigh := h.amount_lt
    obtain ⟨seconds, hSeconds⟩ := exists_ofInt? hLow hHigh
    obtain ⟨thousandths, hThousandths⟩ := exists_thousandth? hLow hHigh
    have hReal : asReal e.amount = .ok seconds := by
      unfold asReal
      rw [hSeconds]
    have hMillis : asSeconds e.amount = .ok thousandths := by
      unfold asSeconds
      rw [hThousandths]
    have hDeadline : e.deadline? now = (deadlineOf now e.type.keyword e.amount).map some := by
      unfold deadline?
      exact if_pos hSets
    rw [hDeadline]
    cases h with
    | within h =>
        rw [isBrief_within_iff hLow]
        constructor
        · intro hLong
          rcases type_within _ with hType | hType <;> rw [hType] <;> unfold deadlineOf <;>
            dsimp only [ExpiryType.keyword] <;> rw [if_neg hLong]
          · exact ⟨_, congrArg (fun x => (x.map (now + ·)).map some) hReal⟩
          · exact ⟨_, congrArg (fun x => (x.map (now + ·)).map some) hMillis⟩
        · intro hBrief
          rcases type_within _ with hType | hType <;> rw [hType] <;> unfold deadlineOf <;>
            dsimp only [ExpiryType.keyword] <;> rw [if_pos hBrief] <;> rfl
    | @upTo t _ h =>
        obtain ⟨m, -, h⟩ := ok_of_bind h
        have hType : e.type = if t.microsecond == 0 then .unixSeconds else .unixMilliseconds := by
          cases h
          rfl
        constructor
        · intro _
          split at hType <;> rw [hType] <;> unfold deadlineOf <;> dsimp only [ExpiryType.keyword]
          · exact ⟨_, congrArg (fun x => x.map some) hReal⟩
          · exact ⟨_, congrArg (fun x => x.map some) hMillis⟩
        · rintro ⟨span, rfl, -⟩
          rcases type_within span with hSpan | hSpan <;> rw [hSpan] at hType <;> split at hType <;>
            cases hType
    | keepExisting | persist => cases hSets
  · have hNone : e.deadline? now = .ok none := by
      unfold deadline?
      exact if_neg hSets
    refine ⟨fun _ => ⟨none, hNone⟩, ?_⟩
    rintro ⟨span, rfl, -⟩
    rcases type_within span with hType | hType <;> rw [hType] at hSets <;> exact absurd rfl hSets

end Expiry

/-! ## The replies -/

namespace Store

open Strings

variable {now : Float} {key : Octets}

theorem onKey_fst (step : KeyStep) (s : Store) :
    (onKey now key step s).1 = (step (s.live? now s.selected key)).map Prod.fst := by
  cases hStep : step (s.live? now s.selected key) with
  | error h => rw [onKey_error hStep]; rfl
  | ok r => rw [onKey_ok hStep]; rfl

/-- What SET answers depends on its condition and on the flag for the old value. -/
theorem step_fst {p q : SetPlan} (hGuard : p.guard = q.guard) (hOld : p.returnOld = q.returnOld)
    (value : Octets) (seen : Option Entry) :
    (p.step value seen).map Prod.fst = (q.step value seen).map Prod.fst := by
  unfold SetPlan.step
  rw [hGuard, hOld]
  cases q.returnOld with
  | false => rfl
  | true => cases expect Value.string? seen <;> rfl

/-- SET carries out what its options say. -/
theorem run_set {c : Command} {value : Octets} {o : SetOptions} (hTyped : o.IsTyped)
    {words : ArgList} (hWords : o.toArgs = .ok words)
    (hc : c.request? = some (.set, key :: value :: octetsOf words)) :
    run now c = given (o.plan now) fun plan => onKey now key (plan.step value) := by
  rw [run_of_open hc rfl (Nat.le_add_left 2 _)]
  rw [SetOptions.toArgs_eq] at hWords
  obtain ⟨groups, hGroups, rfl⟩ := ok_of_map hWords
  show given (SetPlan.read now {} (octetsOf groups.flatten)) _ = _
  rw [SetOptions.read_eq now hTyped hGroups (.refl _)]

/-- GETEX carries out what its options say. -/
theorem run_getex {c : Command} {o : GetExOptions} (hTyped : o.IsTyped) {words : ArgList}
    (hWords : o.toArgs = .ok words) (hc : c.request? = some (.getex, key :: octetsOf words)) :
    run now c = onKey now key (o.step now) := by
  rw [run_of_open hc rfl (Nat.le_add_left 1 _), ← GetExOptions.step_eq now hTyped hWords]
  rfl

section Expiry

variable {e : Expiry} {words : ArgList} {c d : Command} (s : Store)

theorem set_accepted (hBuilt : e.Built) {o : SetOptions} {value : Octets} {plain : ArgList}
    (hGiven : o.expiry? = some e) (hWords : o.toArgs = .ok words)
    (hPlain : SetOptions.toArgs { o with expiry? := none } = .ok plain)
    (hc : c.request? = some (.set, key :: value :: octetsOf words))
    (hd : d.request? = some (.set, key :: value :: octetsOf plain)) :
    (¬ e.IsBrief → (run now c s).1 = (run now d s).1) ∧
      (e.IsBrief → run now c s = (refuse .invalidExpireTime, s)) := by
  have hTyped : o.IsTyped := by
    intro f hf
    rw [hGiven] at hf
    cases hf
    exact hBuilt.typed
  have hNone : SetOptions.IsTyped { o with expiry? := none } := fun _ hNever => nomatch hNever
  obtain ⟨condition, -, hAfter⟩ := ok_of_bind hWords
  rw [hGiven] at hAfter
  obtain ⟨expiry, hExpiry, -⟩ := ok_of_bind hAfter
  obtain ⟨hLong, hBrief⟩ := hBuilt.deadline hExpiry now
  have hPlan : o.plan now = (e.deadline? now).map fun t? =>
      { guard := o.guard
        returnOld := o.returnOld
        deadline? := t?
        keepDeadline := o.expiry?.any fun e => e.type == .keepExisting } := by
    unfold SetOptions.plan
    rw [hGiven]
    show (e.deadline? now >>= _) = _
    cases e.deadline? now <;> rfl
  rw [run_set hTyped hWords hc, hPlan]
  constructor
  · intro h
    obtain ⟨t?, ht⟩ := hLong h
    rw [ht, run_set hNone hPlain hd]
    show (onKey now key _ s).1 = (onKey now key _ s).1
    rw [onKey_fst, onKey_fst]
    apply step_fst
    · rfl
    · rfl
  · intro h
    rw [hBrief h]
    rfl

theorem getex_accepted (hBuilt : e.Built)
    (hWords : GetExOptions.toArgs { expiry? := some e } = .ok words)
    (hc : c.request? = some (.getex, key :: octetsOf words))
    (hd : d.request? = some (.getex, [key])) :
    (¬ e.IsBrief → (run now c s).1 = (run now d s).1) ∧
      (e.IsBrief → ∀ value?, expect Value.string? (s.live? now s.selected key) = .ok value? →
        run now c s = (refuse .invalidExpireTime, s.settle now s.selected key)) := by
  have hTyped : GetExOptions.IsTyped { expiry? := some e } := by
    intro f hf
    cases hf
    exact hBuilt.typed
  have hNone : GetExOptions.IsTyped {} := fun _ hNever => nomatch hNever
  obtain ⟨hLong, hBrief⟩ := hBuilt.deadline hWords now
  rw [run_getex hTyped hWords hc]
  constructor
  · intro h
    obtain ⟨t?, ht⟩ := hLong h
    rw [run_getex hNone (show GetExOptions.toArgs {} = .ok [] from rfl) hd, onKey_fst, onKey_fst]
    unfold GetExOptions.step
    dsimp only
    rw [ht]
    cases expect Value.string? (s.live? now s.selected key) <;> rfl
  · intro h value? hValue
    apply onKey_error
    unfold GetExOptions.step
    dsimp only
    rw [hBrief h, hValue]
    rfl

end Expiry

/-- SET and GETEX answer with an expiry as they answer without one, unless its lifetime is brief;
then they refuse it. -/
theorem built_expiry_accepted {e : Expiry} (hBuilt : e.Built) (now : Float) (s : Store)
    (key : Octets) :
    (∀ (o : SetOptions) (value : Octets) (words plain : ArgList) (c d : Command),
      o.expiry? = some e → o.toArgs = .ok words →
      SetOptions.toArgs { o with expiry? := none } = .ok plain →
      c.request? = some (.set, key :: value :: octetsOf words) →
      d.request? = some (.set, key :: value :: octetsOf plain) →
        (¬ e.IsBrief → (run now c s).1 = (run now d s).1) ∧
        (e.IsBrief → run now c s = (refuse .invalidExpireTime, s))) ∧
    (∀ (words : ArgList) (c d : Command),
      GetExOptions.toArgs { expiry? := some e } = .ok words →
      c.request? = some (.getex, key :: octetsOf words) → d.request? = some (.getex, [key]) →
        (¬ e.IsBrief → (run now c s).1 = (run now d s).1) ∧
        (e.IsBrief → ∀ value?, expect Value.string? (s.live? now s.selected key) = .ok value? →
          run now c s = (refuse .invalidExpireTime, s.settle now s.selected key))) :=
  ⟨fun _ _ _ _ _ _ hGiven hWords hPlain hc hd => set_accepted s hBuilt hGiven hWords hPlain hc hd,
    fun _ _ _ hWords hc hd => getex_accepted s hBuilt hWords hc hd⟩

/-- Ten seconds are taken, and the value is answered. -/
theorem built_expiry_accepted_ten_seconds :
    let s := single [([107], { value := .string [118] })]
    (Expiry.within 10000000).Built ∧
      GetExOptions.toArgs { expiry? := some (Expiry.within 10000000) } =
        .ok [Keyword.ex.arg, .text "10"] ∧
      (run 1.0 ⟨.getex, [.text "k", .text "EX", .text "10"]⟩ s).1 =
        (run 1.0 ⟨.getex, [.text "k"]⟩ s).1 := by
  intro s
  have hBuilt : (Expiry.within 10000000).Built :=
    .within (show Span.ofMicros? 10000000 = _ from rfl)
  have hWords : GetExOptions.toArgs { expiry? := some (Expiry.within 10000000) } =
      .ok [Keyword.ex.arg, .text "10"] :=
    Expiry.toArgs_of_time (e := Expiry.within 10000000) (n := 10) (by decide) rfl rfl (by decide)
      (by decide)
  have hLong : ¬ (Expiry.within 10000000).IsBrief := by
    rw [Expiry.isBrief_within_iff (by decide)]
    decide
  exact ⟨hBuilt, hWords,
    ((built_expiry_accepted hBuilt 1.0 s [107]).2 _ _ _ hWords rfl rfl).1 hLong⟩

/-- No time at all is written for SET and for GETEX, and both are refused. -/
theorem zero_lifetime_refused :
    let s := single [([107], { value := .string [118] })]
    let zero := Expiry.within 0
    SetOptions.toArgs { expiry? := some zero } = .ok [Keyword.ex.arg, .text "0"] ∧
      run 1.0 ⟨.set, [.text "k", .text "w", .text "EX", .text "0"]⟩ s =
        (refuse .invalidExpireTime, s) ∧
      GetExOptions.toArgs { expiry? := some zero } = .ok [Keyword.ex.arg, .text "0"] ∧
      run 1.0 ⟨.getex, [.text "k", .text "EX", .text "0"]⟩ s = (refuse .invalidExpireTime, s) := by
  intro s zero
  have hWords {allowed : List ExpiryType} (hAllowed : .seconds ∈ allowed) :
      zero.toArgs allowed = .ok [Keyword.ex.arg, .text "0"] :=
    Expiry.toArgs_of_time (n := 0) hAllowed rfl rfl (by decide) (by decide)
  refine ⟨?_, by decide +kernel, hWords (by decide), by decide +kernel⟩
  unfold SetOptions.toArgs
  dsimp only
  rw [hWords (by decide)]
  rfl

end Store

end BatchStore
