import BatchStore.Octets
import BatchStore.Refusal

/-!
# Dynamic values

Callers hand in arguments of any type and get replies of any shape. `Datum` is the
type of both: the scalars, the four containers, the refusal that stands in a
reply for a command that failed, and whatever else a caller may hand in by mistake, of
which only the name of the type matters.

A set or mapping is held in the order in which its elements came. `==` tells apart
whatever is built in another way, two zeros of unlike sign among them; what callers take
for one value is a matter of its own.
-/

namespace BatchStore

/-- A value that a caller hands in or gets back. -/
inductive Datum where
  | null
  | bool (b : Bool)
  | int (n : Int)
  | real (x : Float)
  | text (s : String)
  | octets (w : Octets)
  | list (items : List Datum)
  | tuple (items : List Datum)
  | set (elements : List Datum)
  | mapping (pairs : List (Datum × Datum))
  | refusal (r : Refusal)
  /-- A value of any other type, known by the name of the type. -/
  | other (type : String)
deriving Inhabited

namespace Datum

/-- The name of a value's type. -/
def typeName : Datum → String
  | null => "NoneType"
  | bool _ => "bool"
  | int _ => "int"
  | real _ => "float"
  | text _ => "str"
  | octets _ => "bytes"
  | list _ => "list"
  | tuple _ => "tuple"
  | set _ => "set"
  | mapping _ => "dict"
  | refusal _ => "RequestError"
  | other type => type

/-! ## Equality -/

mutual

/-- Whether two values are one. -/
def beq : Datum → Datum → Bool
  | null, null => true
  | bool a, bool b => a == b
  | int a, int b => a == b
  | real a, real b => decide (a = b)
  | text a, text b => a == b
  | octets a, octets b => a == b
  | list a, list b => beqList a b
  | tuple a, tuple b => beqList a b
  | set a, set b => beqList a b
  | mapping a, mapping b => beqPairs a b
  | refusal a, refusal b => decide (a = b)
  | other a, other b => a == b
  | _, _ => false

/-- Whether two rows of values are one. -/
def beqList : List Datum → List Datum → Bool
  | [], [] => true
  | a :: as, b :: bs => beq a b && beqList as bs
  | _, _ => false

/-- Whether two rows of pairs are one. -/
def beqPairs : List (Datum × Datum) → List (Datum × Datum) → Bool
  | [], [] => true
  | (a, x) :: as, (b, y) :: bs => beq a b && beq x y && beqPairs as bs
  | _, _ => false

end

instance : BEq Datum := ⟨beq⟩

mutual

theorem eq_of_beq' : ∀ {a b : Datum}, beq a b = true → a = b
  | .null, b, h => by cases b <;> simp_all [beq]
  | .bool _, b, h => by cases b <;> simp_all [beq]
  | .int _, b, h => by cases b <;> simp_all [beq]
  | .real _, b, h => by cases b <;> simp_all [beq]
  | .text _, b, h => by cases b <;> simp_all [beq]
  | .octets _, b, h => by cases b <;> simp_all [beq]
  | .list a, b, h => by
    cases b <;> simp only [beq, Bool.false_eq_true] at h
    rw [eq_of_beqList h]
  | .tuple a, b, h => by
    cases b <;> simp only [beq, Bool.false_eq_true] at h
    rw [eq_of_beqList h]
  | .set a, b, h => by
    cases b <;> simp only [beq, Bool.false_eq_true] at h
    rw [eq_of_beqList h]
  | .mapping a, b, h => by
    cases b <;> simp only [beq, Bool.false_eq_true] at h
    rw [eq_of_beqPairs h]
  | .refusal _, b, h => by cases b <;> simp_all [beq]
  | .other _, b, h => by cases b <;> simp_all [beq]

theorem eq_of_beqList : ∀ {as bs : List Datum}, beqList as bs = true → as = bs
  | [], bs, h => by cases bs <;> simp_all [beqList]
  | a :: as, [], h => by simp [beqList] at h
  | a :: as, b :: bs, h => by
    simp only [beqList, Bool.and_eq_true] at h
    rw [eq_of_beq' h.1, eq_of_beqList h.2]

theorem eq_of_beqPairs : ∀ {as bs : List (Datum × Datum)}, beqPairs as bs = true → as = bs
  | [], bs, h => by cases bs <;> simp_all [beqPairs]
  | (a, x) :: as, [], h => by simp [beqPairs] at h
  | (a, x) :: as, (b, y) :: bs, h => by
    simp only [beqPairs, Bool.and_eq_true] at h
    rw [eq_of_beq' h.1.1, eq_of_beq' h.1.2, eq_of_beqPairs h.2]

end

mutual

theorem beq_refl : ∀ a : Datum, beq a a = true
  | .null | .bool _ | .int _ | .real _ | .text _ | .octets _ | .refusal _ | .other _ => by
    simp [beq]
  | .list a | .tuple a | .set a => by simp only [beq]; exact beqList_refl a
  | .mapping a => by simp only [beq]; exact beqPairs_refl a

theorem beqList_refl : ∀ as : List Datum, beqList as as = true
  | [] => rfl
  | a :: as => by simp only [beqList, beq_refl a, beqList_refl as, Bool.and_self]

theorem beqPairs_refl : ∀ as : List (Datum × Datum), beqPairs as as = true
  | [] => rfl
  | (a, x) :: as => by
    simp only [beqPairs, beq_refl a, beq_refl x, beqPairs_refl as, Bool.and_self]

end

instance : LawfulBEq Datum where
  eq_of_beq := eq_of_beq'
  rfl := beq_refl _

instance : DecidableEq Datum := fun a b =>
  if h : beq a b = true then isTrue (eq_of_beq' h)
  else isFalse fun hEq => h (hEq ▸ beq_refl a)

/-! ## Views -/

/-- Whether a value counts as nothing: null, false, zero, or empty. -/
def isNothing : Datum → Bool
  | null => true
  | bool b => !b
  | int n => n == 0
  | real x => x == 0.0
  | text s => s.isEmpty
  | octets w => w.isEmpty
  | list xs | tuple xs | set xs => xs.isEmpty
  | mapping ps => ps.isEmpty
  | refusal _ | other _ => false

/-- What stands in a container: the elements, of a mapping its keys. -/
def elements? : Datum → Option (List Datum)
  | list xs | tuple xs | set xs => some xs
  | mapping ps => some (ps.map (·.1))
  | _ => none

/-- What a value gives when it is gone through: a text its characters, a string of octets
their numbers, a container what stands in it. -/
def parts? : Datum → Option (List Datum)
  | text s => some (s.toList.map fun c => text (String.ofList [c]))
  | octets w => some (w.map fun b => int b.toNat)
  | v => v.elements?

/-- A refused command's place in a row of replies. -/
def isRefusal : Datum → Bool
  | refusal _ => true
  | _ => false

end Datum

end BatchStore
