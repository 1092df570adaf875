import LiveTrip.Proofs.Congestion.Windows

/-!
# Every value that a pass takes is there

A pass works on stretches of the values between indices that come from elsewhere: a start that was
reported, window sizes from the settings, an exit from the crossings. Here is the pass once more,
this time as one that looks whether each stretch and each index is there before it takes it, and
fails if not.

* `stretch?`, `SmootherSettings.mapRange?`, `Blend.reportedFrom?`: what looks first.
* `SmootherSettings.smooth?`, `SmootherSettings.traverse?`: a pass made of these.
* `SmootherSettings.smooth?_eq`, `SmootherSettings.traverse?_eq`: it never fails, and comes to the
  same.
-/

namespace LiveTrip

/-- The values at `lo ≤ i < hi`, if there is such a stretch. -/
def stretch? (values : List Nat) (lo hi : Nat) : Option (List Nat) :=
  if lo ≤ hi ∧ hi ≤ values.length then some ((values.drop lo).take (hi - lo)) else none

/-- What the route itself reports for `n` segments from `i` on, if there are so many. -/
def Blend.reportedFrom? (previous : Option Blend) (values : List Nat) :
    Nat → Nat → Option (List Nat)
  | _, 0 => some []
  | i, n + 1 => do
    let v ← values[i]?
    let later ← reportedFrom? previous values (i + 1) n
    some (reportedAt previous i v :: later)

theorem Blend.reportedFrom?_eq (previous : Option Blend) {values : List Nat} {i n : Nat}
    (h : i + n ≤ values.length) :
    reportedFrom? previous values i n =
      some (((values.drop i).take n).mapIdx fun k v => reportedAt previous (i + k) v) := by
  induction n generalizing i with
  | zero => simp [reportedFrom?]
  | succ n ih =>
    have hi : i < values.length := by omega
    have hshift : ∀ k v, reportedAt previous (i + (k + 1)) v = reportedAt previous (i + 1 + k) v :=
      fun k v => by rw [Nat.add_right_comm, Nat.add_assoc]
    rw [reportedFrom?, List.getElem?_eq_getElem hi, ih (by omega), List.drop_eq_getElem_cons hi,
      List.take_succ_cons, List.mapIdx_cons]
    simp only [hshift]
    rfl

namespace SmootherSettings

variable {s : SmootherSettings} {values : List Nat} {start expected : Nat}

/-- `f` applied to the values at `lo ≤ i < hi`, if there is such a stretch. -/
def mapRange? (lo hi : Nat) (f : Nat → Nat) (values : List Nat) : Option (List Nat) :=
  if lo ≤ hi ∧ hi ≤ values.length then some (mapRange lo hi f values) else none

/-- The two windows of a pass, which end at `e` at the latest. It fails if an index is out of
range. -/
def smoothWithin? (s : SmootherSettings) (values : List Nat) (start expected e : Nat)
    (previous : Option Blend) : Option (Option Smoothing) := do
  let m := s.nearEnd start e
  let n := s.farEnd start e
  let near ← mapRange? start m (s.nearValue expected) values
  let first ← near[start]?
  let nearBand := s.thresholds.bandOf first
  let congestion ← mapRange? m n (s.raiseToward (nearBand.milder?.getD .light)) near
  let after ← stretch? congestion start n
  let before ← stretch? values start n
  if after = before then some none
  else do
    let reported ← Blend.reportedFrom? previous values start (n - start)
    some (some {
      congestion, nearBand
      record := { start, length := n - start, reported, expected } })

/-- One pass that fails if an index is out of range. -/
def smooth? (s : SmootherSettings) (values : List Nat) (start expected : Nat)
    (boundary : Option Nat) (previous : Option Blend) : Option (Option Smoothing) :=
  let e := limit boundary values.length
  if s.enabled = false ∨ (previous.any fun r => r.start = start ∧ r.expected = expected) ∨
      e ≤ start then some none
  else s.smoothWithin? values start expected e previous

theorem mapRange?_eq {lo hi : Nat} (f : Nat → Nat) (hlo : lo ≤ hi) (hhi : hi ≤ values.length) :
    mapRange? lo hi f values = some (mapRange lo hi f values) := if_pos ⟨hlo, hhi⟩

/-- Values that agree outside a stretch are the same just if they agree within it. -/
theorem stretch_eq_iff {after : List Nat} {lo hi : Nat}
    (houtside : ∀ i, i < lo ∨ hi ≤ i → after[i]? = values[i]?) :
    (after.drop lo).take (hi - lo) = (values.drop lo).take (hi - lo) ↔ after = values := by
  refine ⟨fun h => List.ext_getElem? fun i => ?_, fun h => by rw [h]⟩
  by_cases hout : i < lo ∨ hi ≤ i
  · exact houtside i hout
  · obtain ⟨k, rfl⟩ := Nat.exists_eq_add_of_le (Nat.not_lt.mp (not_or.mp hout).1)
    have hk : k < hi - lo := by omega
    have hat := congrArg (·[k]?) h
    simpa only [List.getElem?_take_of_lt hk, List.getElem?_drop] using hat

/-- What is looked up of the two windows is there, so the pass gets to what it works out. -/
theorem smoothWithin?_of_room {e : Nat} {previous : Option Blend} (hroom : start < e)
    (he : e ≤ values.length) :
    s.smoothWithin? values start expected e previous =
      some (if s.passed expected start (s.nearEnd start e) (s.farEnd start e) values = values
        then none
        else some {
          congestion := s.passed expected start (s.nearEnd start e) (s.farEnd start e) values
          record := {
            start, length := s.farEnd start e - start, expected
            reported := ((values.drop start).take (s.farEnd start e - start)).mapIdx fun k v =>
              Blend.reportedAt previous (start + k) v }
          nearBand := s.firstBand expected start (s.nearEnd start e) values }) := by
  have hm := s.start_le_nearEnd (Nat.le_of_lt hroom)
  have hmn := s.nearEnd_le_farEnd start e
  have hn := Nat.le_trans (s.farEnd_le start e) he
  unfold smoothWithin?
  generalize s.nearEnd start e = m at hm hmn ⊢
  generalize s.farEnd start e = n at hmn hn ⊢
  have hnear : mapRange? start m (s.nearValue expected) values =
      some (s.nearPassed expected start m values) := mapRange?_eq _ hm (Nat.le_trans hmn hn)
  have hlength : (s.nearPassed expected start m values).length = values.length := by
    simp [nearPassed, mapRange]
  have hfirst : (s.nearPassed expected start m values)[start]? =
      some ((s.nearPassed expected start m values).getD start 0) := by
    have hstart := Nat.lt_of_lt_of_le hroom (hlength ▸ he)
    rw [List.getD_eq_getElem?_getD, List.getElem?_eq_getElem hstart, Option.getD_some]
  have hfar : mapRange? m n
      (s.raiseToward ((s.firstBand expected start m values).milder?.getD .light))
      (s.nearPassed expected start m values) = some (s.passed expected start m n values) :=
    mapRange?_eq _ hmn (hlength ▸ hn)
  have hpassed : (s.passed expected start m n values).length = values.length := by
    simp [passed, mapRange, hlength]
  have hstretch : ∀ list : List Nat, list.length = values.length →
      stretch? list start n = some ((list.drop start).take (n - start)) := fun list hlist =>
    if_pos ⟨Nat.le_trans hm hmn, hlist ▸ hn⟩
  have hreported : Blend.reportedFrom? previous values start (n - start) = _ :=
    Blend.reportedFrom?_eq previous (by omega)
  have houtside : ∀ i, i < start ∨ n ≤ i →
      (s.passed expected start m n values)[i]? = values[i]? := fun _ =>
    getElem?_passed_of_outside hm hmn
  have hsame := stretch_eq_iff houtside
  simp only [Option.bind_eq_bind, hnear, Option.bind_some, hfirst]
  rw [← firstBand, hfar]
  simp only [Option.bind_some, hstretch _ hpassed, hstretch _ rfl, hsame, hreported]
  split <;> rfl

/-- **No index of a pass is out of range.** -/
theorem smooth?_eq (s : SmootherSettings) (values : List Nat) (start expected : Nat)
    (boundary : Option Nat) (previous : Option Blend) :
    s.smooth? values start expected boundary previous =
      some (s.smooth values start expected boundary previous) := by
  rw [smooth_eq]
  unfold smooth?
  simp only
  by_cases hskipped : s.enabled = false ∨
      (previous.any fun r => r.start = start ∧ r.expected = expected) ∨
      limit boundary values.length ≤ start
  · rw [if_pos hskipped, if_pos]
    exact hskipped.imp_right (·.imp_right .inl)
  · rw [if_neg hskipped]
    simp only [not_or] at hskipped
    obtain ⟨henabled, hnew, hroom⟩ := hskipped
    rw [smoothWithin?_of_room (Nat.not_le.mp hroom) (limit_le _ _)]
    simp only [henabled, hnew, hroom, reduceCtorEq, false_or]

/-- One pass over a leg that fails if an index is out of range. -/
def traverse? (s : SmootherSettings) (leg : Leg) (start expected : Nat) : Option (Leg × Bool) := do
  let out ← s.smooth? leg.congestion start expected (leg.exitAfter start) leg.blend
  match out with
  | some out => some ({ leg with congestion := out.congestion, blend := some out.record }, true)
  | none => some (leg, false)

/-- **No index of a pass over a leg is out of range.** -/
theorem traverse?_eq (s : SmootherSettings) (leg : Leg) (start expected : Nat) :
    s.traverse? leg start expected = some (s.apply leg start expected) := by
  rw [traverse?, smooth?_eq, apply, smoothLeg]
  simp only [Option.bind_eq_bind, Option.bind_some]
  cases s.smooth leg.congestion start expected (leg.exitAfter start) leg.blend <;> rfl

end SmootherSettings
end LiveTrip
