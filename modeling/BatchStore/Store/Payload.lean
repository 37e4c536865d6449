import BatchStore.Octets.Utf8
import BatchStore.Store.Value

/-!
# Payloads

A payload is a value written as octets, to be kept elsewhere and brought back later. It
begins with four octets that mark it, and two more that stand in no text. Then comes a tag
for the type, and behind it what the value is made of; counts and lengths are written in
groups of seven bits, the lowest first, and all groups but the last carry the bit `128`.

`read?` brings back what `write` wrote, whatever stands behind it. It also takes a letter
behind the mark for a payload: N for nothing, T for true, F for false.
-/

namespace BatchStore.Payload

/-- The octets that every payload begins with. -/
def mark : Octets := [75, 86, 66, 1]

/-! ## Numbers -/

/-- Writes a number in groups of seven bits. -/
def writeNat (n : Nat) : Octets :=
  if n < 128 then [UInt8.ofNat n] else UInt8.ofNat (128 + n % 128) :: writeNat (n / 128)
termination_by n
decreasing_by omega

/-- Reads a number and gives the rest back. -/
def readNat : Octets → Option (Nat × Octets)
  | [] => none
  | b :: rest =>
    if b < 128 then some (b.toNat, rest)
    else (readNat rest).map fun r => (b.toNat - 128 + 128 * r.1, r.2)

theorem readNat_writeNat (n : Nat) (rest : Octets) :
    readNat (writeNat n ++ rest) = some (n, rest) := by
  induction n using Nat.strongRecOn with
  | _ n ih =>
    rw [writeNat]
    split
    · rename_i h
      have hSmall : UInt8.ofNat n < 128 := by
        rw [UInt8.lt_iff_toNat_lt, UInt8.toNat_ofNat']
        simp
        omega
      simp [readNat, hSmall]
      omega
    · rename_i h
      have hLarge : ¬ UInt8.ofNat (128 + n % 128) < 128 := by
        rw [UInt8.lt_iff_toNat_lt, UInt8.toNat_ofNat']
        simp
        omega
      have hNext := ih (n / 128) (by omega)
      simp only [List.cons_append, readNat, hLarge, if_false, hNext, Option.map_some]
      simp
      omega

/-- Takes some octets off the front, if there are so many. -/
def takeOctets (n : Nat) (w : Octets) : Option (Octets × Octets) :=
  let front := w.take n
  if front.length = n then some (front, w.drop n) else none

theorem takeOctets_append (w rest : Octets) :
    takeOctets w.length (w ++ rest) = some (w, rest) := by
  simp [takeOctets]

/-! ## Values -/

mutual

/-- Writes a value without the mark. A refusal and a value of a foreign type have no form
of their own and are written as nothing. -/
def writeBody : Datum → Octets
  | .null => [128]
  | .bool false => [129]
  | .bool true => [130]
  | .int n => (if n < 0 then 131 else 132) :: writeNat n.natAbs
  | .real x => 133 :: writeNat x.toBits.toNat
  | .text s => let w := Octets.ofText s; 134 :: writeNat w.length ++ w
  | .octets w => 135 :: writeNat w.length ++ w
  | .list xs => 136 :: writeNat xs.length ++ writeRow xs
  | .tuple xs => 137 :: writeNat xs.length ++ writeRow xs
  | .set xs => 138 :: writeNat xs.length ++ writeRow xs
  | .mapping ps => 139 :: writeNat ps.length ++ writePairs ps
  | .refusal _ | .other _ => [128]

/-- Writes values one behind the other. -/
def writeRow : List Datum → Octets
  | [] => []
  | x :: xs => writeBody x ++ writeRow xs

/-- Writes keys and values one behind the other. -/
def writePairs : List (Datum × Datum) → Octets
  | [] => []
  | (k, v) :: ps => writeBody k ++ writeBody v ++ writePairs ps

end

/-- Reads `n` things of one form. -/
def readMany {α : Type} (one : Octets → Option (α × Octets)) :
    Nat → Octets → Option (List α × Octets)
  | 0, w => some ([], w)
  | n + 1, w => do
    let (x, w) ← one w
    let (xs, w) ← readMany one n w
    return (x :: xs, w)

/-- Reads a count and then so many things of one form. -/
def readCounted {α : Type} (one : Octets → Option (α × Octets)) (w : Octets) :
    Option (List α × Octets) := do
  let (n, w) ← readNat w
  readMany one n w

/-- Reads two things of one form. -/
def readPair {α : Type} (one : Octets → Option (α × Octets)) (w : Octets) :
    Option ((α × α) × Octets) := do
  let (k, w) ← one w
  let (v, w) ← one w
  return ((k, v), w)

/-- Reads a counted row of octets. -/
def readOctets (w : Octets) : Option (Octets × Octets) := do
  let (n, w) ← readNat w
  takeOctets n w

/-- Reads a value that is nested at most `depth` deep, and gives the rest back. -/
def readBody : Nat → Octets → Option (Datum × Octets)
  | 0, _ => none
  | _, [] => none
  | depth + 1, tag :: w =>
    match tag with
    | 128 => some (.null, w)
    | 129 => some (.bool false, w)
    | 130 => some (.bool true, w)
    | 131 => do
      let (n, w) ← readNat w
      return (.int (-(n : Int)), w)
    | 132 => do
      let (n, w) ← readNat w
      return (.int n, w)
    | 133 => do
      let (n, w) ← readNat w
      return (.real (Float.ofBits (UInt64.ofNat n)), w)
    | 134 => do
      let (t, w) ← readOctets w
      match t.decode? with
      | .ok s => return (.text s, w)
      | .error _ => none
    | 135 => do
      let (t, w) ← readOctets w
      return (.octets t, w)
    | 136 => do
      let (xs, w) ← readCounted (readBody depth) w
      return (.list xs, w)
    | 137 => do
      let (xs, w) ← readCounted (readBody depth) w
      return (.tuple xs, w)
    | 138 => do
      let (xs, w) ← readCounted (readBody depth) w
      return (.set xs, w)
    | 139 => do
      let (ps, w) ← readCounted (readPair (readBody depth)) w
      return (.mapping ps, w)
    | _ => none

/-- The payload of a value. -/
def write (d : Datum) : Octets := mark ++ 253 :: 245 :: writeBody d

/-- The value of a payload. Nesting goes no deeper than there are octets. -/
def read? (payload : Octets) : Option Datum :=
  if mark.isPrefixOf payload then
    match payload.drop mark.length with
    | 253 :: 245 :: body => (readBody body.length body).map (·.1)
    | 78 :: _ => some .null
    | 84 :: _ => some (.bool true)
    | 70 :: _ => some (.bool false)
    | _ => none
  else none

/-- A form of payloads: how values are written as octets, and how octets are read. -/
structure Form where
  write : Datum → Octets
  read? : Octets → Option Datum

/-- The form of this module. -/
def form : Form := { write, read? }

/-! ## Stored values -/

/-- What a payload of a stored value holds: the kind and the content. -/
def contentOf (v : Value) : Datum := .tuple [.text v.kindName, v.toDatum]

/-- The stored value that a row of kind and content stands for. For lists, sets and
hashes the content alone decides. -/
def valueOfRow? : List Datum → Option Value
  | [.text kind, content] =>
    match content with
    | .octets w => if kind == "string" then some (.string w) else none
    | .mapping ps =>
      if kind == "zset" then some (.zset ⟨ps⟩)
      else if isLoose kind then some (.hash ⟨ps⟩) else none
    | .list xs => if isLoose kind then some (.list xs) else none
    | .set xs => if isLoose kind then some (.set xs) else none
    | _ => none
  | _ => none
where
  /-- Whether a kind goes with any of three containers. -/
  isLoose (kind : String) : Bool := kind == "list" || kind == "set" || kind == "hash"

/-- The stored value that the content of a payload stands for. -/
def valueOf? : Datum → Option Value
  | .list row => valueOfRow? row
  | .tuple row => valueOfRow? row
  | _ => none

end BatchStore.Payload
