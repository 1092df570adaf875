import LiveTrip.Proofs.Text.Json
import LiveTrip.Route.Document

/-!
# Routes that are read back

Of a numeral with many digits, the reader may take a neighbour of the double that it denotes. So a
route is read back if its coordinates are.

* `Route.ReadBack`: a double that is read back from its numeral.
* `Route.WritableLeg`: the numbers of a leg are in range, and its coordinates are read back.
* `Route.ofText_toText`: a route of such legs is read back from its text, without what was blended
  into them.
-/

namespace LiveTrip.Route

open Text

/-! ## What is written is a text -/

theorem wellFormed_map {α : Type} {f : α → Json} (h : ∀ a, (f a).WellFormed) (as : List α) :
    (Json.array (as.map f)).WellFormed := by
  refine .array fun v hv => ?_
  obtain ⟨a, -, rfl⟩ := List.mem_map.mp hv
  exact h a

theorem wellFormed_pointJson (p : Point) : (pointJson p).WellFormed :=
  .object (by simp [Json.wellFormed_ofFloat])

theorem wellFormed_intersectionJson (i : Intersection) : (intersectionJson i).WellFormed :=
  .object (by simp [Json.wellFormed_ofNat, Json.wellFormed_ofOption, Json.WellFormed.string])

theorem wellFormed_stepJson (s : Step) : (stepJson s).WellFormed :=
  .object (by
    simp [wellFormed_map wellFormed_intersectionJson, Json.wellFormed_ofOption,
      Json.WellFormed.string])

theorem wellFormed_legJson (l : Leg) : (legJson l).WellFormed :=
  .object (by
    simp [wellFormed_map wellFormed_pointJson, wellFormed_map Json.wellFormed_ofNat,
      wellFormed_map wellFormed_stepJson])

theorem wellFormed_toJson (r : Route) : r.toJson.WellFormed :=
  .object (by simp [wellFormed_map wellFormed_legJson, Json.WellFormed.string])

/-! ## Records -/

theorem listOf?_map {α β : Type} {read? : Json → Option β} {write : α → Json} {f : α → β}
    {as : List α} (h : ∀ a ∈ as, read? (write a) = some (f a)) :
    listOf? read? (.array (as.map write)) = some (as.map f) := by
  rw [listOf?]
  induction as with
  | nil => rfl
  | cons a as ih =>
    rw [List.map_cons, List.mapM_cons, h a List.mem_cons_self,
      ih fun b hb => h b (List.mem_cons_of_mem _ hb)]
    rfl

theorem natBelow?_ofNat {bound n : Nat} (h : n < bound) : natBelow? bound (.ofNat n) = some n :=
  Json.Numeral.nat?_ofNat h

theorem optional?_ofOption {α : Type} {read? : Json → Option α} {write : α → Json}
    (hnull : ∀ a, write a ≠ .null) (h : ∀ a, read? (write a) = some a) (a : Option α) :
    optional? read? (.ofOption write a) = some a := by
  cases a with
  | none => rfl
  | some a =>
    rw [Json.ofOption]
    unfold optional?
    split
    · rename_i heq; exact absurd heq (hnull a)
    · rw [h]; rfl

theorem stringOf?_string (t : String) : stringOf? (.string (some t)) = some t := rfl

theorem roadClassOf?_name (c : RoadClass) : roadClassOf? (.string c.name) = some c := by
  cases c <;> decide

/-- A double that is read back from its numeral. -/
def ReadBack (x : Float) : Prop := floatOf? (.ofFloat x) = some x

theorem pointOf?_pointJson {p : Point} (hlat : ReadBack p.latitude) (hlon : ReadBack p.longitude) :
    pointOf? (pointJson p) = some p := by
  simp only [ReadBack] at hlat hlon
  simp [pointOf?, pointJson, fieldsOf?, hlat, hlon]

theorem intersectionOf?_intersectionJson {i : Intersection} (h : i.index < longBound) :
    intersectionOf? (intersectionJson i) = some i := by
  have hclass : optional? roadClassOf? (.ofOption (fun c => .string c.name) i.roadClass) =
      some i.roadClass := optional?_ofOption (by simp) roadClassOf?_name _
  simp [intersectionOf?, intersectionJson, fieldsOf?, fieldOr?, natBelow?_ofNat h, hclass]

theorem stepOf?_stepJson {s : Step} (h : ∀ i ∈ s.intersections, i.index < longBound) :
    stepOf? (stepJson s) = some s := by
  have htext : optional? stringOf? (.ofOption (.string <| some ·) s.instruction) =
      some s.instruction := optional?_ofOption (by simp) stringOf?_string _
  have hintersections := listOf?_map fun i hi => intersectionOf?_intersectionJson (h i hi)
  rw [List.map_id'] at hintersections
  simp [stepOf?, stepJson, fieldsOf?, fieldOr?, htext, hintersections]

/-! ## Routes -/

/-- The numbers of a leg are in range, and its coordinates are read back. -/
structure WritableLeg (l : Leg) : Prop where
  points : ∀ p ∈ l.geometry, ReadBack p.latitude ∧ ReadBack p.longitude
  congestion : ∀ c ∈ l.congestion, c < byteBound
  indices : ∀ s ∈ l.steps, ∀ i ∈ s.intersections, i.index < longBound

/-- A leg is read back without what was blended into it. -/
theorem legOf?_legJson {l : Leg} (h : WritableLeg l) :
    legOf? (legJson l) = some { l with blend := none } := by
  have hpoints := listOf?_map fun p hp => pointOf?_pointJson (h.points p hp).1 (h.points p hp).2
  have hcongestion := listOf?_map fun c hc => natBelow?_ofNat (h.congestion c hc)
  have hsteps := listOf?_map fun s hs => stepOf?_stepJson (h.indices s hs)
  rw [List.map_id'] at hpoints hcongestion hsteps
  simp [legOf?, legJson, fieldsOf?, fieldOr?, hpoints, hcongestion, hsteps]

/-- **A route is read back from its text**, without what was blended into its legs. -/
theorem ofText_toText {r : Route} (h : ∀ l ∈ r.legs, WritableLeg l) :
    ofText r.toText = .ok { r with legs := r.legs.map fun l => { l with blend := none } } := by
  have hlegs := listOf?_map fun l hl => legOf?_legJson (h l hl)
  have hroute : ofJson? r.toJson =
      some { r with legs := r.legs.map fun l => { l with blend := none } } := by
    simp [ofJson?, toJson, fieldsOf?, stringOf?, hlegs]
  rw [ofText, toText, Json.read?_text (wellFormed_toJson r), Option.bind_some, hroute]

end LiveTrip.Route
