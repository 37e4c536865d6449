import Mathlib.Data.List.Basic
import BatchStore.Proofs.Options.Ranges
import BatchStore.Proofs.Store.Pipeline
import BatchStore.Proofs.Store.Restored

/-!
# The letter case of options

The words of an option are a keyword and its operands. A keyword is known by its capitals, so an
argument list means the same whichever letters of its keywords are capitals. `Recased` relates the
option words that differ so, and `CommandType.Recased` argument lists; operands, and the arguments
in front of the options, are the same in both.

A reader that goes from keyword to keyword reads recased words alike if it does so at one keyword
(`ReadsByKeyword.read_eq`). That leaves one case of each keyword for each command.

GETEX is the exception: it knows PERSIST in capitals alone (`getex_single_word`), and refuses the
small letters (`getex_lower_persist`). Of all else `recased_alike` says that reply and store are the
same.
-/

namespace BatchStore

/-! ## Recased words -/

namespace CommandType

/-- The number of operands that an option of a command has behind its keyword; without one, the
keyword is none of the command's. -/
def operands? : CommandType → Keyword → Option Nat
  | .copy, .replace => some 0
  | .copy, .db => some 1
  | .scan, .pattern | .scan, .count | .scan, .type => some 1
  | .restore, .replace | .restore, .absttl => some 0
  | .restore, .idletime | .restore, .freq => some 1
  | .set, .nx | .set, .xx | .set, .get | .set, .keepttl => some 0
  | .set, .ifeq | .set, .ex | .set, .px | .set, .exat | .set, .pxat => some 1
  | .getex, .persist => some 0
  | .getex, .ex | .getex, .px | .getex, .exat | .getex, .pxat => some 1
  | .lpos, .rank | .lpos, .maxlen => some 1
  | .zrange, .byscore | .zrange, .bylex | .zrange, .rev => some 0
  | .zrange, .limit => some 2
  | .geoadd, .nx | .geoadd, .xx | .geoadd, .ch => some 0
  | .functionLoad, .replace => some 0
  | .functionRestore, .append | .functionRestore, .flush | .functionRestore, .replace => some 0
  | _, _ => none

/-- The number of arguments in front of the options. -/
def optionsFrom : CommandType → Nat
  | .scan | .getex | .geoadd | .functionRestore => 1
  | .copy | .set | .lpos => 2
  | .restore | .zrange => 3
  | _ => 0

end CommandType

/-- Option words that differ in the letter case of keywords at most. From a word on that is no
keyword they are the same. -/
inductive Recased (operands? : Keyword → Option Nat) : List Octets → List Octets → Prop
  | same (words : List Octets) : Recased operands? words words
  | option {v w : Octets} {k : Keyword} {operands rest rest' : List Octets}
      (hKeyword : Keyword.ofOctets? v = some k) (hCase : v.upper = w.upper)
      (hCount : operands? k = some operands.length) (hRest : Recased operands? rest rest') :
      Recased operands? (v :: (operands ++ rest)) (w :: (operands ++ rest'))

/-- Argument lists of a command that differ in the letter case of option keywords at most. -/
inductive CommandType.Recased (t : CommandType) : List Octets → List Octets → Prop
  | intro {front words words' : List Octets} (hFront : front.length = t.optionsFrom)
      (hWords : BatchStore.Recased t.operands? words words') :
      Recased t (front ++ words) (front ++ words')

namespace Recased

variable {operands? : Keyword → Option Nat} {words words' : List Octets}

theorem length_eq (h : Recased operands? words words') : words.length = words'.length := by
  induction h with
  | same => rfl
  | option _ _ _ _ ih => simp only [List.length_cons, List.length_append, ih]

/-- Without keywords nothing is recased. -/
theorem eq_of_none (h : Recased (fun _ => none) words words') : words = words' := by
  cases h with
  | same => rfl
  | option _ _ hCount _ => cases hCount

/-- The last of some words is the same, or they are all keywords. -/
theorem getLast?_eq_or (h : Recased operands? words words')
    (hAlone : ∀ k n, operands? k = some n → n = 0) :
    words.getLast? = words'.getLast? ∨
      ∃ v w k, words.getLast? = some v ∧ words'.getLast? = some w ∧
        Keyword.ofOctets? v = some k ∧ Keyword.ofOctets? w = some k := by
  induction h with
  | same => exact .inl rfl
  | @option v w k operands rest rest' hKeyword hCase hCount hRest ih =>
      obtain rfl : operands = [] := List.length_eq_zero_iff.1 (hAlone k _ hCount)
      have hLength := hRest.length_eq
      rw [List.nil_append, List.nil_append]
      cases rest with
      | nil =>
          obtain rfl : rest' = [] := List.length_eq_zero_iff.1 hLength.symm
          exact .inr ⟨v, w, k, rfl, rfl, hKeyword,
            (Keyword.ofOctets?_eq_of_upper_eq hCase) ▸ hKeyword⟩
      | cons x xs =>
          obtain ⟨y, ys, rfl⟩ := List.exists_cons_of_length_eq_add_one hLength.symm
          rw [List.getLast?_cons_cons, List.getLast?_cons_cons]
          exact ih

end Recased

theorem CommandType.Recased.length_eq {t : CommandType} {args args' : List Octets}
    (h : t.Recased args args') : args.length = args'.length := by
  obtain @⟨front, words, words', -, hWords⟩ := h
  rw [List.length_append, List.length_append, hWords.length_eq]

/-! ## Readers -/

/-- What a reader does at a keyword with its operands hangs on the keyword alone, not on the
letters. -/
def ReadsByKeyword {α β : Type} (operands? : Keyword → Option Nat)
    (read : α → List Octets → β) : Prop :=
  ∀ (a : α) {v w : Octets} {k : Keyword} {operands rest rest' : List Octets},
    Keyword.ofOctets? v = some k → Keyword.ofOctets? w = some k →
    operands? k = some operands.length → (∀ b, read b rest = read b rest') →
    read a (v :: (operands ++ rest)) = read a (w :: (operands ++ rest'))

theorem ReadsByKeyword.read_eq {α β : Type} {operands? : Keyword → Option Nat}
    {read : α → List Octets → β} (h : ReadsByKeyword operands? read) {words words' : List Octets}
    (hWords : Recased operands? words words') (a : α) : read a words = read a words' := by
  induction hWords generalizing a with
  | same => rfl
  | option hKeyword hCase hCount _ ih =>
      have hOther := (Keyword.ofOctets?_eq_of_upper_eq hCase) ▸ hKeyword
      exact h a hKeyword hOther hCount ih

/-! A keyword without operands, or with one or two, leaves the rest of the words to be read. -/

section Operands

variable {operands : List Octets}

theorem no_operands (h : some 0 = some operands.length) : operands = [] :=
  List.length_eq_zero_iff.1 (Option.some.inj h).symm

theorem one_operand (h : some 1 = some operands.length) : ∃ x, operands = [x] :=
  List.length_eq_one_iff.1 (Option.some.inj h).symm

theorem two_operands (h : some 2 = some operands.length) : ∃ x y, operands = [x, y] :=
  List.length_eq_two.1 (Option.some.inj h).symm

end Operands

theorem Keys.CopyPlan.reads_by_keyword (s : Store) :
    ReadsByKeyword (CommandType.operands? .copy) (Keys.CopyPlan.read s) := by
  intro plan v w k operands rest rest' hv hw hCount hRest
  conv => lhs; unfold read
  conv => rhs; unfold read
  rw [hv, hw]
  cases k with
  | replace =>
      obtain rfl := no_operands hCount
      exact hRest _
  | db =>
      obtain ⟨index, rfl⟩ := one_operand hCount
      simp only [List.singleton_append, hRest]
  | _ => cases hCount

theorem Scan.Plan.reads_by_keyword :
    ReadsByKeyword (CommandType.operands? .scan) Scan.Plan.read := by
  intro plan v w k operands rest rest' hv hw hCount hRest
  cases k with
  | pattern | count | type =>
      obtain ⟨x, rfl⟩ := one_operand hCount
      rw [List.singleton_append, List.singleton_append]
      conv => lhs; unfold read
      conv => rhs; unfold read
      rw [hv, hw]
      simp only [hRest]
  | _ => cases hCount

theorem Backup.RestorePlan.reads_by_keyword :
    ReadsByKeyword (CommandType.operands? .restore) Backup.RestorePlan.read := by
  intro plan v w k operands rest rest' hv hw hCount hRest
  conv => lhs; unfold read
  conv => rhs; unfold read
  rw [hv, hw]
  cases k with
  | replace | absttl =>
      obtain rfl := no_operands hCount
      exact hRest _
  | idletime | freq =>
      obtain ⟨hint, rfl⟩ := one_operand hCount
      simp only [List.singleton_append, hRest]
  | _ => cases hCount

theorem Strings.SetPlan.reads_by_keyword (now : Float) :
    ReadsByKeyword (CommandType.operands? .set) (Strings.SetPlan.read now) := by
  intro plan v w k operands rest rest' hv hw hCount hRest
  conv => lhs; unfold read
  conv => rhs; unfold read
  rw [hv, hw]
  cases k with
  | nx | xx | get | keepttl =>
      obtain rfl := no_operands hCount
      exact hRest _
  | ifeq =>
      obtain ⟨comparison, rfl⟩ := one_operand hCount
      exact hRest _
  | ex | px | exat | pxat =>
      obtain ⟨amount, rfl⟩ := one_operand hCount
      simp only [List.singleton_append, hRest]
  | _ => cases hCount

theorem Lists.Search.reads_by_keyword :
    ReadsByKeyword (CommandType.operands? .lpos) Lists.Search.read := by
  intro plan v w k operands rest rest' hv hw hCount hRest
  cases k with
  | rank | maxlen =>
      obtain ⟨number, rfl⟩ := one_operand hCount
      rw [List.singleton_append, List.singleton_append]
      conv => lhs; unfold read
      conv => rhs; unfold read
      rw [hv, hw]
      simp only [hRest]
  | _ => cases hCount

theorem SortedSets.RangePlan.reads_by_keyword :
    ReadsByKeyword (CommandType.operands? .zrange) SortedSets.RangePlan.read := by
  intro plan v w k operands rest rest' hv hw hCount hRest
  conv => lhs; unfold read
  conv => rhs; unfold read
  rw [hv, hw]
  cases k with
  | byscore | bylex | rev =>
      obtain rfl := no_operands hCount
      exact hRest _
  | limit =>
      obtain ⟨offset, count, rfl⟩ := two_operands hCount
      simp only [List.cons_append, List.nil_append, hRest]
  | _ => cases hCount

theorem Places.Flags.reads_by_keyword :
    ReadsByKeyword (CommandType.operands? .geoadd) Places.Flags.read := by
  intro flags v w k operands rest rest' hv hw hCount hRest
  conv => lhs; unfold read
  conv => rhs; unfold read
  rw [hv, hw]
  cases k with
  | nx | xx | ch =>
      obtain rfl := no_operands hCount
      exact hRest _
  | _ => cases hCount

/-! ## Commands -/

/-- No keyword is a piece of code with a name: the line of such a piece begins with a hash sign. -/
theorem Libraries.nameOf?_keyword {w : Octets} {k : Keyword} (h : Keyword.ofOctets? w = some k) :
    Libraries.nameOf? w = none := by
  unfold Libraries.nameOf?
  refine if_neg fun hMark => ?_
  obtain ⟨line, hLine⟩ := List.isPrefixOf_iff_prefix.1 hMark
  cases w with
  | nil => cases hLine
  | cons b rest =>
      have hFirst : b = 35 := by
        unfold Octets.firstLine at hLine
        rw [List.takeWhile_cons] at hLine
        split at hLine
        · exact (List.cons.inj hLine).1.symm
        · cases hLine
      rw [hFirst, Keyword.ofOctets?_below (by decide)] at h
      cases h

/-- A keyword for the first word, and what is behind it, is all that FUNCTION LOAD looks at. -/
theorem Libraries.load_recased {words words' : List Octets} (hSome : words ≠ [])
    (h : Recased (CommandType.operands? .functionLoad) words words') :
    Libraries.load (words.headD []) (words.getLast?.getD []) =
      Libraries.load (words'.headD []) (words'.getLast?.getD []) := by
  have hAlone : ∀ k n, CommandType.operands? .functionLoad k = some n → n = 0 := by
    intro k n hCount
    cases k with
    | replace => exact (Option.some.inj hCount).symm
    | _ => cases hCount
  have hFirst : Keyword.ofOctets? (words.headD []) = Keyword.ofOctets? (words'.headD []) := by
    cases h with
    | same => rfl
    | option _ hCase _ _ => exact Keyword.ofOctets?_eq_of_upper_eq hCase
  rcases h.getLast?_eq_or hAlone with hLast | ⟨v, w, k, hv, hw, hKeyword, hOther⟩
  · unfold Libraries.load
    rw [hFirst, hLast]
  · unfold Libraries.load
    rw [hv, hw]
    dsimp only [Option.getD_some]
    rw [Libraries.nameOf?_keyword hKeyword, Libraries.nameOf?_keyword hOther]

/-- An option of GETEX is all that it takes: with more words behind it, it is refused whatever they
are. -/
theorem Strings.getex_recased (now : Float) {words words' : List Octets}
    (h : Recased (CommandType.operands? .getex) words words')
    (hPersist : ∀ w, words = [w] → Keyword.ofOctets? w ≠ some .persist) :
    Strings.getex now words = Strings.getex now words' := by
  cases h with
  | same => rfl
  | @option v w k operands rest rest' hKeyword hCase hCount hRest =>
      have hOther := (Keyword.ofOctets?_eq_of_upper_eq hCase) ▸ hKeyword
      have hLength := hRest.length_eq
      unfold Strings.getex
      cases k with
      | persist =>
          obtain rfl := no_operands hCount
          rcases rest with _ | ⟨x, _ | ⟨y, rest⟩⟩
          · exact absurd hKeyword (hPersist v rfl)
          · obtain ⟨z, rfl⟩ := List.length_eq_one_iff.1 hLength.symm
            simp only [List.nil_append, hKeyword, hOther, Keyword.setsDeadline]
            rfl
          · obtain ⟨z, _, rfl⟩ := List.exists_cons_of_length_eq_add_one hLength.symm
            obtain ⟨z', _, rfl⟩ := List.exists_cons_of_length_eq_add_one (Nat.succ.inj hLength).symm
            rfl
      | ex | px | exat | pxat =>
          obtain ⟨amount, rfl⟩ := one_operand hCount
          cases rest with
          | nil =>
              obtain rfl := List.length_eq_zero_iff.1 hLength.symm
              simp only [List.append_nil, hKeyword, hOther]
          | cons x rest =>
              obtain ⟨z, _, rfl⟩ := List.exists_cons_of_length_eq_add_one hLength.symm
              rfl
      | _ => cases hCount

/-- The policy of FUNCTION RESTORE is a keyword, or missing. -/
theorem Libraries.restore_recased (payload : Octets) {words words' : List Octets}
    (h : Recased (CommandType.operands? .functionRestore) words words') :
    Libraries.restore payload words.head? = Libraries.restore payload words'.head? := by
  cases h with
  | same => rfl
  | option _ hCase _ _ =>
      unfold Libraries.restore Libraries.restoreBy Libraries.policyOf
      simp only [List.head?_cons, Option.elim_some, Keyword.ofOctets?_eq_of_upper_eq hCase]

namespace Store

/-- A step does the same on recased arguments, unless they ask GETEX for PERSIST. -/
theorem step_recased (now : Float) {t : CommandType} {args args' : List Octets}
    (h : t.Recased args args')
    (hPersist : ∀ key w, t = .getex → args = [key, w] → Keyword.ofOctets? w ≠ some .persist) :
    step now t args = step now t args' := by
  obtain @⟨front, words, words', hFront, hWords⟩ := h
  cases t with
  | copy =>
      obtain ⟨source, destination, rfl⟩ := List.length_eq_two.1 hFront
      funext s
      show given (Keys.CopyPlan.read s _ words) _ s = given (Keys.CopyPlan.read s _ words') _ s
      rw [(Keys.CopyPlan.reads_by_keyword s).read_eq hWords]
  | scan =>
      obtain ⟨cursor, rfl⟩ := List.length_eq_one_iff.1 hFront
      show Scan.scanBy _ now cursor words = Scan.scanBy _ now cursor words'
      unfold Scan.scanBy
      simp only [Scan.Plan.reads_by_keyword.read_eq hWords]
  | restore =>
      obtain ⟨key, lifetime, payload, rfl⟩ := List.length_eq_three.1 hFront
      show Backup.restoreBy _ now key lifetime payload words =
        Backup.restoreBy _ now key lifetime payload words'
      unfold Backup.restoreBy
      rw [Backup.RestorePlan.reads_by_keyword.read_eq hWords]
  | set =>
      obtain ⟨key, value, rfl⟩ := List.length_eq_two.1 hFront
      show Strings.set now key value words = Strings.set now key value words'
      unfold Strings.set
      rw [(Strings.SetPlan.reads_by_keyword now).read_eq hWords]
  | getex =>
      obtain ⟨key, rfl⟩ := List.length_eq_one_iff.1 hFront
      have hSame := Strings.getex_recased now hWords fun w hw =>
        hPersist key w rfl (by rw [hw]; rfl)
      show onKey now key (Strings.getex now words) = onKey now key (Strings.getex now words')
      rw [hSame]
  | lpos =>
      obtain ⟨key, element, rfl⟩ := List.length_eq_two.1 hFront
      show Lists.lpos now key element words = Lists.lpos now key element words'
      unfold Lists.lpos
      rw [Lists.Search.reads_by_keyword.read_eq hWords]
  | zrange =>
      obtain ⟨key, first, last, rfl⟩ := List.length_eq_three.1 hFront
      show SortedSets.zrange now key first last words = SortedSets.zrange now key first last words'
      unfold SortedSets.zrange
      rw [SortedSets.RangePlan.reads_by_keyword.read_eq hWords]
  | geoadd =>
      obtain ⟨key, rfl⟩ := List.length_eq_one_iff.1 hFront
      show Places.geoadd now key words = Places.geoadd now key words'
      unfold Places.geoadd
      rw [Places.Flags.reads_by_keyword.read_eq hWords]
  | functionLoad =>
      obtain rfl := List.length_eq_zero_iff.1 hFront
      have hLength := hWords.length_eq
      cases words with
      | nil =>
          obtain rfl := List.length_eq_zero_iff.1 hLength.symm
          rfl
      | cons first rest =>
          have hSame := Libraries.load_recased (List.cons_ne_nil first rest) hWords
          obtain ⟨first', rest', rfl⟩ := List.exists_cons_of_length_eq_add_one hLength.symm
          exact hSame
  | functionRestore =>
      obtain ⟨payload, rfl⟩ := List.length_eq_one_iff.1 hFront
      exact Libraries.restore_recased payload hWords
  | _ =>
      obtain rfl := List.length_eq_zero_iff.1 hFront
      rw [hWords.eq_of_none]

/-- What GETEX does with a single word behind the key: PERSIST in capitals takes the deadline away,
and any other word is refused. -/
theorem getex_single_word {c : Command} {key w : Octets}
    (hc : c.request? = some (.getex, [key, w])) {now : Float} {s : Store} {value? : Option Octets}
    (hString : expect Value.string? (s.live? now s.selected key) = .ok value?) :
    run now c s =
      if w = Keyword.persist.octets then
        (.ok (Strings.shown value?), (s.settle now s.selected key).setEntry s.selected key
          ((s.live? now s.selected key).map fun e => { e with deadline? := none }))
      else (refuse .syntaxError, s.settle now s.selected key) := by
  have hRun : run now c s = onKey now key (Strings.getex now [w]) s := by
    rw [run_of_request? hc]
    rfl
  rw [hRun]
  split
  · rename_i hCapitals
    apply onKey_ok
    unfold Strings.getex
    rw [hString, hCapitals]
    rfl
  · rename_i hSmall
    apply onKey_error
    unfold Strings.getex
    rw [hString]
    show (if w == Keyword.persist.octets then _ else _) = _
    rw [if_neg (by simpa using hSmall)]
    rfl

/-- Commands whose arguments differ in the letter case of option keywords and policies at most are
answered alike and leave the same store, whatever they ask for and whether they are refused or not.

GETEX with PERSIST is set apart. There the capitals count: at a key that holds a string, or nothing,
PERSIST in capitals takes the deadline away, and a single word in any other letters is refused. -/
theorem recased_alike {t : CommandType} {args args' : List Octets} (h : t.Recased args args')
    {c c' : Command} (hc : c.request? = some (t, args)) (hc' : c'.request? = some (t, args'))
    (now : Float) (s : Store) :
    ((∀ key w, t = .getex → args = [key, w] → Keyword.ofOctets? w ≠ some .persist) →
      run now c s = run now c' s) ∧
    ∀ key w, t = .getex → args = [key, w] →
      ∀ value?, expect Value.string? (s.live? now s.selected key) = .ok value? →
        run now c s =
          if w = Keyword.persist.octets then
            (.ok (Strings.shown value?), (s.settle now s.selected key).setEntry s.selected key
              ((s.live? now s.selected key).map fun e => { e with deadline? := none }))
          else (refuse .syntaxError, s.settle now s.selected key) := by
  constructor
  · intro hPersist
    rw [run_of_request? hc, run_of_request? hc', runType, runType, h.length_eq,
      step_recased now h hPersist]
  · rintro key w rfl rfl value? hString
    exact getex_single_word hc hString

/-- SET under a condition and with a lifetime, in capitals and in mixed letters. -/
theorem recased_alike_set :
    let s := single []
    CommandType.Recased .set [[107], [118], Octets.ofText "NX", Octets.ofText "EX", [53]]
        [[107], [118], Octets.ofText "nX", Octets.ofText "ex", [53]] ∧
      run 1.0 ⟨.set, [.text "k", .text "v", .text "NX", .text "EX", .text "5"]⟩ s =
        run 1.0 ⟨.set, [.text "k", .text "v", .text "nX", .text "ex", .text "5"]⟩ s := by
  intro s
  have hRecased : CommandType.Recased .set
      [[107], [118], Octets.ofText "NX", Octets.ofText "EX", [53]]
      [[107], [118], Octets.ofText "nX", Octets.ofText "ex", [53]] := by
    refine @CommandType.Recased.intro _ [[107], [118]] _ _ rfl ?_
    refine @BatchStore.Recased.option _ _ _ .nx [] _ _ ?_ ?_ rfl ?_
    · decide +kernel
    · decide +kernel
    refine @BatchStore.Recased.option _ _ _ .ex [[53]] _ _ ?_ ?_ rfl (.same [])
    · decide +kernel
    · decide +kernel
  refine ⟨hRecased, (recased_alike hRecased rfl rfl 1.0 s).1 ?_⟩
  intro key w hType
  cases hType

/-- PERSIST in small letters is refused where PERSIST in capitals answers the value. -/
theorem getex_lower_persist :
    let s := single [([107], { value := .string [118], deadline? := some 100.0 })]
    CommandType.Recased .getex [[107], Octets.ofText "PERSIST"] [[107], Octets.ofText "persist"] ∧
      run 0.0 ⟨.getex, [.text "k", .text "PERSIST"]⟩ s =
        (.ok (.octets [118]), single [([107], { value := .string [118] })]) ∧
      run 0.0 ⟨.getex, [.text "k", .text "persist"]⟩ s = (refuse .syntaxError, s) := by
  refine ⟨?_, ?_, ?_⟩
  · refine @CommandType.Recased.intro _ [[107]] _ _ rfl ?_
    refine @BatchStore.Recased.option _ _ _ .persist [] _ _ ?_ ?_ rfl (.same [])
    · decide +kernel
    · decide +kernel
  · decide +kernel
  · decide +kernel

end Store

end BatchStore
