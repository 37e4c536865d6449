import BatchStore.Fault
import BatchStore.Number.Dyadic

/-!
# Spans of time

A span is a count of microseconds. It is built from days, seconds and microseconds as people
write them, whole numbers or broken ones: half a day, a quarter of a second.

A broken number of units gives whole microseconds as far as it can; what is left of all the
units together is rounded once, at the end, and a tie goes to the even number of
microseconds. Whole numbers leave nothing to round.
-/

namespace BatchStore

/-- A length of time in microseconds. -/
abbrev Span := Int

/-- A number of units of time. -/
inductive TimeCount where
  | whole (n : Int)
  | broken (x : Float)

/-- Whole microseconds, and the part of one that is left over. -/
structure Tally where
  micros : Int
  rest : Float

namespace Tally

/-- Nothing counted so far. -/
def zero : Tally := ⟨0, 0.0⟩

/-- A double without its fraction, and the fraction. -/
def cutOff (x : Float) : Except Fault (Int × Float) :=
  match Number.Dyadic.ofFloat? x with
  | some d => .ok (d.truncate, x - (if x < 0.0 then x.ceil else x.floor))
  | none => .error (if x.isNaN then .nanToInteger else .infinityToInteger)

/-- Counts some units of so many microseconds each. -/
def add (t : Tally) (unit : Int) : TimeCount → Except Fault Tally
  | .whole n => .ok { t with micros := t.micros + n * unit }
  | .broken x => do
    let (units, part) ← cutOff x
    let (micros, rest) ← cutOff (part * Float.ofInt unit)
    return ⟨t.micros + units * unit + micros, t.rest + rest⟩

/-- The whole microseconds nearest to the tally, of two at one distance the even one. -/
def nearest (t : Tally) : Except Fault Int := do
  let rounded := t.rest.round
  let odd := Float.ofInt (t.micros % 2)
  let rest :=
    if (rounded - t.rest).abs == 0.5 then 2.0 * ((t.rest + odd) * 0.5).round - odd else rounded
  return t.micros + (← cutOff rest).1

end Tally

namespace Span

/-- A count of microseconds as a span; spans of a thousand million days and more are not
kept. -/
def ofMicros? (micros : Int) : Except Fault Span :=
  let days := micros / 86400000000
  if days < -2147483648 || 2147483647 < days then .error (.width .daysTooMany)
  else if days < -999999999 || 999999999 < days then .error (.spanTooLong days)
  else .ok micros

/-- The span of a tally. -/
def ofTally? (t : Tally) : Except Fault Span := do ofMicros? (← t.nearest)

/-- The span of some days, seconds and microseconds. The smaller units are counted first. -/
def ofParts? (days seconds microseconds : TimeCount) : Except Fault Span := do
  let t ← Tally.zero.add 1 microseconds
  let t ← t.add 1000000 seconds
  ofTally? (← t.add 86400000000 days)

end Span

end BatchStore
