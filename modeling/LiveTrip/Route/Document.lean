import LiveTrip.Route
import LiveTrip.Text.Json
import LiveTrip.Error

/-!
# Routes as JSON text

A record is an object, or an array of its fields in their order. In an object, unknown members are
passed over and a known one may not be repeated; in an array, nothing may be left over. A field that
may be missing is named by its `Field`:

* `required`: always there;
* `nullable`: missing from an object, or `null`; an array has to hold it;
* `defaulted`: missing from an object or from the end of an array, but never `null`, unless its own
  reader takes `null`.

`Route.ofText` reads a route. `Route.toText` writes one, with every record as an object that has all
of its fields. What was blended into a leg is not written.
-/

namespace LiveTrip.Route

open Text

/-- When a field of a record may be missing. -/
inductive Field
  | required
  | nullable
  | defaulted
  deriving DecidableEq, Repr

/-- The values of a record's fields, each `none` where the field is missing. -/
def fieldsOf? (fields : List (String × Field)) : Json → Option (List (Option Json))
  | .object members =>
    -- A name without text is no name of a field, and no member of a record may have one.
    if members.any (·.1.isNone) then none
    else fields.mapM fun (name, field) =>
      match members.filter (·.1 = some name) with
      | [] => if field = .required then none else some none
      | [(_, v)] => some (some v)
      | _ => none
  | .array items =>
    if items.length > fields.length then none
    else some (fields.mapIdx fun i _ => items[i]?) |>.filter fun values =>
      (values.zip fields).all fun (v, _, field) => v.isSome || field = .defaulted
  | _ => none

def floatOf? : Json → Option Float
  | .number n => n.float?
  | _ => none

def natBelow? (bound : Nat) : Json → Option Nat
  | .number n => n.nat? bound
  | _ => none

def stringOf? : Json → Option String
  | .string text => text
  | _ => none

/-- Reads `null` as nothing. -/
def optional? {α : Type} (read? : Json → Option α) : Json → Option (Option α)
  | .null => some none
  | v => (read? v).map some

def listOf? {α : Type} (read? : Json → Option α) : Json → Option (List α)
  | .array items => items.mapM read?
  | _ => none

/-- A field that is read if it is there. -/
def fieldOr? {α : Type} (default : α) (read? : Json → Option α) : Option Json → Option α
  | none => some default
  | some v => read? v

/-- A class is its name, or an object with that name and nothing in it. -/
def roadClassOf? : Json → Option RoadClass
  | .string (some name) => RoadClass.ofName? name
  | .object [(some name, .null)] => RoadClass.ofName? name
  | _ => none

def pointOf? (v : Json) : Option Point := do
  match ← fieldsOf? [("latitude", .required), ("longitude", .required)] v with
  | [some lat, some lon] => pure { latitude := ← floatOf? lat, longitude := ← floatOf? lon }
  | _ => none

def intersectionOf? (v : Json) : Option Intersection := do
  match ← fieldsOf? [("geometry_index", .required), ("road_class", .nullable)] v with
  | [some index, roadClass] =>
    pure { index := ← natBelow? longBound index
           roadClass := ← fieldOr? none (optional? roadClassOf?) roadClass }
  | _ => none

def stepOf? (v : Json) : Option Step := do
  match ← fieldsOf? [("instruction", .defaulted), ("intersections", .defaulted)] v with
  | [instruction, intersections] =>
    pure { instruction := ← fieldOr? none (optional? stringOf?) instruction
           intersections := ← fieldOr? [] (listOf? intersectionOf?) intersections }
  | _ => none

def legOf? (v : Json) : Option Leg := do
  match ← fieldsOf? [("geometry", .required), ("congestion_numeric", .defaulted),
      ("steps", .defaulted)] v with
  | [some geometry, congestion, steps] =>
    pure { geometry := ← listOf? pointOf? geometry
           congestion := ← fieldOr? [] (listOf? (natBelow? byteBound)) congestion
           steps := ← fieldOr? [] (listOf? stepOf?) steps }
  | _ => none

def ofJson? (v : Json) : Option Route := do
  match ← fieldsOf? [("id", .required), ("legs", .required)] v with
  | [some id, some legs] => pure { id := ← stringOf? id, legs := ← listOf? legOf? legs }
  | _ => none

/-- The route that a text describes. -/
def ofText (text : String) : Except SettingsError Route :=
  match (Json.read? text).bind ofJson? with
  | some route => .ok route
  | none => .error .malformed

/-! ## Writing -/

def pointJson (p : Point) : Json :=
  .object [(some "latitude", .ofFloat p.latitude), (some "longitude", .ofFloat p.longitude)]

def intersectionJson (i : Intersection) : Json :=
  .object [
    (some "geometry_index", .ofNat i.index),
    (some "road_class", .ofOption (fun c => .string c.name) i.roadClass)]

def stepJson (s : Step) : Json :=
  .object [
    (some "instruction", .ofOption (.string <| some ·) s.instruction),
    (some "intersections", .array (s.intersections.map intersectionJson))]

def legJson (l : Leg) : Json :=
  .object [
    (some "geometry", .array (l.geometry.map pointJson)),
    (some "congestion_numeric", .array (l.congestion.map .ofNat)),
    (some "steps", .array (l.steps.map stepJson))]

def toJson (r : Route) : Json :=
  .object [(some "id", .string r.id), (some "legs", .array (r.legs.map legJson))]

/-- The text of a route. -/
def toText (r : Route) : String := r.toJson.text

end LiveTrip.Route
