import BatchStore.Options.Write

/-!
# Places

A place has a longitude and a latitude in degrees. Latitudes end where the square map
of the earth ends.
-/

namespace BatchStore

/-- Longitudes go from minus this to this. -/
def maxLongitude : Float := 180.0

/-- Latitudes go from minus this to this. -/
def maxLatitude : Float := 85.05112878

/-- A place as a caller gives it. -/
structure GeoPoint where
  longitude : Datum
  latitude : Datum

namespace GeoPoint

/-- Whether a number lies between minus the bound and the bound. -/
def isWithin (bound : Float) (v : Datum) : Except Failure Bool := do
  if ← compareNumber .atMost (.real (-bound)) v then compareNumber .atMost v (.real bound)
  else return false

def toArgs (p : GeoPoint) : Except Failure ArgList := do
  if !(← isWithin maxLongitude p.longitude) then
    throw (.option (.longitude (← shownNumber p.longitude)))
  if !(← isWithin maxLatitude p.latitude) then
    throw (.option (.latitude (← shownNumber p.latitude)))
  return [.text (← numberText p.longitude), .text (← numberText p.latitude)]

end GeoPoint

/-- Options of GEOADD. -/
structure GeoAddOptions where
  condition? : Option Condition := none
  /-- Whether to count the changed members and not only the new ones. -/
  changed : Bool := false

def GeoAddOptions.toArgs (o : GeoAddOptions) : Except Failure ArgList := do
  let condition ←
    match o.condition? with
    | none => .ok []
    | some .onlyIfEquals => .error (.option (.geoCondition Keyword.ifeq.word))
    | some c => .ok [c.keyword.arg]
  return condition ++ (if o.changed then [Keyword.ch.arg] else [])

end BatchStore
