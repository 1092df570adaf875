import LiveTrip.Proofs.Settings.RoundTrip
import LiveTrip.Proofs.Text.Lines

/-!
# Settings from what a text assigns

* `Assignment`: values for some of the known keys; `Assignment.settings`: the defaults overlaid with
  them.
* `Assignment.Written`: the first values of the known keys of a document are those of an assignment.
  Other sections and keys, and what is repeated, may say anything.
* `overlay_of_written`: what a document overlays the defaults with is what it assigns.
* `validate_settings_iff`: which assignments make settings that can be used.
* `ofText_of_lays`: the settings of a text that lays out such a document.
-/

namespace LiveTrip

/-! ## Validation -/

theorem Polling.validate_eq_ok {p : Polling} :
    p.validate = .ok () ↔ p.timeout ≠ 0 ∧ p.policy ≠ .fixedCadence 0 := by
  unfold Polling.validate
  split
  · rename_i h
    exact iff_of_false nofun fun hp => hp.1 h
  · split
    · rename_i h
      exact iff_of_false nofun fun hp => hp.2 h
    · exact iff_of_true rfl ⟨‹_›, ‹_›⟩

theorem SmootherSettings.validate_eq_ok {s : SmootherSettings} :
    s.validate = .ok () ↔ s.near ≠ 0 ∧ s.thresholds.Valid := by
  unfold SmootherSettings.validate
  split
  · rename_i h
    exact iff_of_false nofun fun hs => hs.1 h
  · rename_i h
    exact Thresholds.validate_eq_ok.trans (and_iff_right h).symm

namespace Settings

open Text Ini

theorem validate_eq_ok {s : Settings} :
    s.validate = .ok () ↔ s.polling.validate = .ok () ∧ s.smoother.validate = .ok () := by
  unfold Settings.validate
  rw [bind_eq_ok]
  exact ⟨fun ⟨_, hp, hs⟩ => ⟨hp, hs⟩, fun ⟨hp, hs⟩ => ⟨(), hp, hs⟩⟩

/-- What validation refuses is an invalid value. -/
theorem invalid_of_validate {s : Settings} {e : SettingsError} (h : s.validate = .error e) :
    ∃ key value, e = .invalid key value := by
  unfold Settings.validate LiveTrip.Polling.validate SmootherSettings.validate
    Thresholds.validate at h
  split at h
  · cases h
    exact ⟨_, _, rfl⟩
  · split at h
    · cases h
      exact ⟨_, _, rfl⟩
    · change (if _ then _ else _) = _ at h
      split at h
      · cases h
        exact ⟨_, _, rfl⟩
      · split at h <;> cases h
        exact ⟨_, _, rfl⟩

/-! ## Assignments -/

/-- The names of the policies. -/
inductive PolicyName
  | eventDriven
  | fixedCadence
  deriving DecidableEq, Repr

def PolicyName.text : PolicyName → String
  | .eventDriven => "event_driven"
  | .fixedCadence => "fixed_cadence"

/-- Values for some of the known keys. -/
structure Assignment where
  policy : Option PolicyName := none
  cadence : Option Nat := none
  timeout : Option Nat := none
  preview : Option Bool := none
  enabled : Option Bool := none
  near : Option Nat := none
  far : Option Nat := none
  moderate : Option Nat := none
  heavy : Option Nat := none
  severe : Option Nat := none
  level : Option String := none
  directory : Option String := none

namespace Assignment

/-- The policy of the name, if there is one; the cadence is that of the fixed one only. -/
def tickPolicy (a : Assignment) : TickPolicy :=
  match a.policy with
  | some .fixedCadence => .fixedCadence (a.cadence.getD defaultCadence)
  | some .eventDriven => .eventDriven
  | none => ({} : Polling).policy

def thresholds (a : Assignment) : Thresholds where
  moderate := a.moderate.getD ({} : Thresholds).moderate
  heavy := a.heavy.getD ({} : Thresholds).heavy
  severe := a.severe.getD ({} : Thresholds).severe

def smoother (a : Assignment) : SmootherSettings where
  enabled := a.enabled.getD ({} : SmootherSettings).enabled
  near := a.near.getD ({} : SmootherSettings).near
  far := a.far.getD ({} : SmootherSettings).far
  thresholds := a.thresholds

def logging (a : Assignment) : Logging where
  level := a.level.getD ({} : Logging).level
  directory := a.directory

/-- The defaults overlaid with the values. -/
def settings (a : Assignment) : Settings where
  polling := { policy := a.tickPolicy, timeout := a.timeout.getD ({} : Polling).timeout }
  phase := { preview := a.preview.getD ({} : PhaseRule).preview }
  smoother := a.smoother
  logging := a.logging

end Assignment

/-! ## Written values -/

/-- A numeral of a number below a bound. -/
def IsNumeral (bound : Nat) (raw : String) (n : Nat) : Prop := Denotes raw.toList n ∧ n < bound

/-- The first value of each known key is that of an assignment, or there is none. -/
structure Assignment.Written (d : Document) (a : Assignment) : Prop where
  policy : Option.Rel (fun raw p => raw = p.text) (d.value? "session" "tick_policy") a.policy
  cadence : Option.Rel (IsNumeral longBound) (d.value? "session" "cadence_ms") a.cadence
  timeout : Option.Rel (IsNumeral longBound) (d.value? "session" "status_timeout_ms") a.timeout
  preview : Option.Rel (fun raw b => raw = toString b)
    (d.value? "phase" "preview_destination_without_routes") a.preview
  enabled : Option.Rel (fun raw b => raw = toString b) (d.value? "traffic" "enabled") a.enabled
  near : Option.Rel (IsNumeral longBound) (d.value? "traffic" "near_segments") a.near
  far : Option.Rel (IsNumeral longBound) (d.value? "traffic" "far_segments") a.far
  moderate : Option.Rel (IsNumeral byteBound) (d.value? "traffic" "moderate") a.moderate
  heavy : Option.Rel (IsNumeral byteBound) (d.value? "traffic" "heavy") a.heavy
  severe : Option.Rel (IsNumeral byteBound) (d.value? "traffic" "severe") a.severe
  level : d.value? "logging" "level" = a.level
  directory : d.value? "logging" "directory" = a.directory
  /-- An empty directory would be none. -/
  nonempty : a.directory ≠ some ""

/-! ## What is read of a section -/

/-- The first section of a name, or one without entries. -/
def sectionOf (d : Document) (name : String) : Section := (d.section? name).getD { name }

theorem value?_sectionOf (d : Document) (name key : String) :
    (sectionOf d name).value? key = d.value? name key := by
  unfold sectionOf Document.value?
  cases d.section? name <;> rfl

/-- A missing section is read as one without entries. -/
theorem overlay_eq (d : Document) (s : Settings) : overlay d s = (do
    let polling ← readPolling (sectionOf d "session") s.polling
    let phase ← readPhase (sectionOf d "phase") s.phase
    let smoother ← readSmoother (sectionOf d "traffic") s.smoother
    let logging := readLogging (sectionOf d "logging") s.logging
    pure { polling, phase, smoother, logging }) := by
  unfold overlay sectionOf
  cases d.section? "session" <;> cases d.section? "phase" <;> cases d.section? "traffic" <;>
    cases d.section? "logging" <;> rfl

variable {a : Assignment} {d : Document} {s : Section}

/-- A section in which every value is trimmed. -/
def Trimmed (s : Section) : Prop :=
  ∀ key value, s.value? key = some value → trim value.toList = value.toList

theorem trimmed_sectionOf {text : List Char} (h : Lays d text) (name : String) :
    Trimmed (sectionOf d name) := fun key _ hvalue =>
  h.trim_value? (value?_sectionOf d name key ▸ hvalue)

section

variable {α : Type} {key : String} {means : String → α → Prop} {read? : List Char → Option α}
  {x : Option α}

theorem assigned_of_rel (hs : Trimmed s) (hread : ∀ raw x, means raw x → read? raw.toList = some x)
    (h : Option.Rel means (s.value? key) x) : assigned s key read? = .ok x := by
  cases hvalue : s.value? key with
  | none =>
    rw [hvalue] at h
    cases h
    simp only [assigned, hvalue]
  | some raw =>
    rw [hvalue] at h
    cases h with
    | some h => exact assigned_eq hvalue (by rw [hs key raw hvalue, hread raw _ h])

end

theorem assigned_numeral {key : String} {bound : Nat} {n : Option Nat} (hs : Trimmed s)
    (h : Option.Rel (IsNumeral bound) (s.value? key) n) : assigned s key (natOf? bound) = .ok n :=
  assigned_of_rel hs (fun _ _ ⟨hraw, hn⟩ => natOf?_of_denotes hraw hn) h

theorem assigned_flag {key : String} {b : Option Bool} (hs : Trimmed s)
    (h : Option.Rel (fun raw b => raw = toString b) (s.value? key) b) :
    assigned s key boolOf? = .ok b :=
  assigned_of_rel hs (by rintro raw (_ | _) rfl <;> rfl) h

theorem readPolling_of_written (hs : Trimmed (sectionOf d "session")) (h : a.Written d) :
    readPolling (sectionOf d "session") {} = .ok a.settings.polling := by
  have hcadence := assigned_numeral hs (value?_sectionOf d _ _ ▸ h.cadence)
  have htimeout := assigned_numeral hs (value?_sectionOf d _ _ ▸ h.timeout)
  have hpolicy := h.policy
  rw [← value?_sectionOf] at hpolicy
  simp only [readPolling, hcadence, htimeout, Assignment.settings, Assignment.tickPolicy]
  generalize a.policy = policy at hpolicy ⊢
  cases hvalue : (sectionOf d "session").value? "tick_policy" with
  | none =>
    rw [hvalue] at hpolicy
    cases hpolicy
    rfl
  | some raw =>
    have htrim := hs _ _ hvalue
    rw [hvalue] at hpolicy
    cases hpolicy with
    | @some _ name hname =>
      subst hname
      simp only [htrim]
      cases name <;> rfl

theorem readPhase_of_written (hs : Trimmed (sectionOf d "phase")) (h : a.Written d) :
    readPhase (sectionOf d "phase") {} = .ok a.settings.phase := by
  have hpreview := assigned_flag hs (value?_sectionOf d _ _ ▸ h.preview)
  simp only [readPhase, hpreview]
  rfl

theorem readSmoother_of_written (hs : Trimmed (sectionOf d "traffic")) (h : a.Written d) :
    readSmoother (sectionOf d "traffic") {} = .ok a.settings.smoother := by
  have henabled := assigned_flag hs (value?_sectionOf d _ _ ▸ h.enabled)
  have hnear := assigned_numeral hs (value?_sectionOf d _ _ ▸ h.near)
  have hfar := assigned_numeral hs (value?_sectionOf d _ _ ▸ h.far)
  have hmoderate := assigned_numeral hs (value?_sectionOf d _ _ ▸ h.moderate)
  have hheavy := assigned_numeral hs (value?_sectionOf d _ _ ▸ h.heavy)
  have hsevere := assigned_numeral hs (value?_sectionOf d _ _ ▸ h.severe)
  simp only [readSmoother, henabled, hnear, hfar, hmoderate, hheavy, hsevere]
  rfl

theorem readLogging_of_written (hs : Trimmed (sectionOf d "logging")) (h : a.Written d) :
    readLogging (sectionOf d "logging") {} = a.settings.logging := by
  have hlevel := (value?_sectionOf d _ _).trans h.level
  have hdirectory := (value?_sectionOf d _ _).trans h.directory
  have hne := h.nonempty
  simp only [readLogging, Assignment.settings, Assignment.logging, hlevel, hdirectory]
  congr 1
  · cases hl : a.level with
    | none => rfl
    | some level => simp only [hs _ _ (hlevel.trans hl), String.ofList_toList, Option.getD_some]
  · cases hl : a.directory with
    | none => rfl
    | some directory =>
      rw [hl] at hne
      have hempty : directory.toList.isEmpty = false := by simpa using hne
      simp only [hs _ _ (hdirectory.trans hl), hempty, Bool.false_eq_true, ↓reduceIte,
        String.ofList_toList]

/-- **What a document overlays the defaults with is what it assigns.** -/
theorem overlay_of_written {text : List Char} (hd : Lays d text) (h : a.Written d) :
    overlay d {} = .ok a.settings := by
  have hpolling := readPolling_of_written (trimmed_sectionOf hd _) h
  have hphase := readPhase_of_written (trimmed_sectionOf hd _) h
  have hsmoother := readSmoother_of_written (trimmed_sectionOf hd _) h
  have hlogging := readLogging_of_written (trimmed_sectionOf hd _) h
  rw [overlay_eq]
  simp only [hpolling, hphase, hsmoother, hlogging]
  rfl

/-! ## Which assignments can be used -/

theorem tickPolicy_eq_iff (a : Assignment) (period : Nat) :
    a.tickPolicy = .fixedCadence period ↔
      a.policy = some .fixedCadence ∧ a.cadence.getD defaultCadence = period := by
  unfold Assignment.tickPolicy
  cases a.policy with
  | none => simp
  | some name => cases name <;> simp

theorem getD_eq_zero_iff {x : Option Nat} {default : Nat} (h : default ≠ 0) :
    x.getD default = 0 ↔ x = some 0 := by
  cases x <;> simp [h]

/-- **An assignment can be used if it gives no zero that matters, and its thresholds rise together
with the defaults of those that it does not give.** -/
theorem validate_settings_iff (a : Assignment) : a.settings.validate = .ok () ↔
    a.timeout ≠ some 0 ∧ (a.policy = some .fixedCadence → a.cadence ≠ some 0) ∧
      a.near ≠ some 0 ∧
      Thresholds.Valid ⟨a.moderate.getD 40, a.heavy.getD 60, a.severe.getD 80⟩ := by
  have htimeout : a.settings.polling.timeout ≠ 0 ↔ a.timeout ≠ some 0 :=
    not_congr (getD_eq_zero_iff (by decide))
  have hpolicy : a.settings.polling.policy ≠ .fixedCadence 0 ↔
      (a.policy = some .fixedCadence → a.cadence ≠ some 0) := by
    rw [← not_and]
    refine not_congr ((tickPolicy_eq_iff a 0).trans (and_congr_right fun _ => ?_))
    exact getD_eq_zero_iff (by decide)
  have hnear : a.settings.smoother.near ≠ 0 ↔ a.near ≠ some 0 :=
    not_congr (getD_eq_zero_iff (by decide))
  rw [validate_eq_ok, Polling.validate_eq_ok, SmootherSettings.validate_eq_ok, htimeout, hpolicy,
    hnear, and_assoc]
  rfl

/-- A cadence that the policy does not use leaves no trace. -/
theorem settings_of_cadence {a : Assignment} (h : a.policy ≠ some .fixedCadence)
    (cadence : Option Nat) : { a with cadence }.settings = a.settings := by
  have hpolicy : Assignment.tickPolicy { a with cadence } = a.tickPolicy := by
    unfold Assignment.tickPolicy
    cases hp : a.policy with
    | none => rfl
    | some name =>
      cases name with
      | eventDriven => rfl
      | fixedCadence => exact absurd hp h
  simp only [Assignment.settings, hpolicy]
  rfl

/-! ## The whole account -/

theorem ofText_of_written {text : String} (hd : Lays d text.toList) (h : a.Written d) :
    ofText text = a.settings.validate.map fun _ => a.settings := by
  have hdocument : ofDocument d = a.settings.validate >>= fun _ => .ok a.settings := by
    rw [ofDocument, overlay_of_written hd h]
    rfl
  rw [ofText, hd.read?_eq]
  refine hdocument.trans ?_
  cases a.settings.validate <;> rfl

/-- **The settings of a text that assigns values to some of the known keys are the defaults overlaid
with the first value of each, if these can be used, and else an invalid value is reported.** A cadence
counts with the fixed policy only. -/
theorem ofText_of_lays {text : String} (hd : Lays d text.toList) (h : a.Written d) :
    (a.settings.validate = .ok () → ofText text = .ok a.settings) ∧
    (a.settings.validate ≠ .ok () →
      ∃ key value, ofText text = .error (.invalid key value)) ∧
    (a.settings.validate = .ok () ↔
      a.timeout ≠ some 0 ∧ (a.policy = some .fixedCadence → a.cadence ≠ some 0) ∧
        a.near ≠ some 0 ∧
        Thresholds.Valid ⟨a.moderate.getD 40, a.heavy.getD 60, a.severe.getD 80⟩) ∧
    (a.policy ≠ some .fixedCadence → ∀ (cadence : Option Nat) (text' : String) (d' : Document),
      Lays d' text'.toList → { a with cadence }.Written d' → ofText text' = ofText text) := by
  have htext := ofText_of_written hd h
  refine ⟨fun hv => ?_, fun hv => ?_, validate_settings_iff a, ?_⟩
  · rw [htext, hv]
    rfl
  · cases hvalidate : a.settings.validate with
    | ok => exact absurd hvalidate hv
    | error e =>
      obtain ⟨key, value, rfl⟩ := invalid_of_validate hvalidate
      exact ⟨key, value, by rw [htext, hvalidate]; rfl⟩
  · intro hpolicy cadence text' d' hd' h'
    rw [ofText_of_written hd' h', htext, settings_of_cadence hpolicy]

/-- Sections in another order, with one that is not known and one that is repeated, and a key that is
repeated. -/
def mixedDocument : Document where
  sections := [
    { name := "vehicle", entries := [("class", "bus")] },
    { name := "traffic", entries := [("heavy", "075"), ("near_segments", "+3"), ("heavy", "1")] },
    { name := "session", entries := [("cadence_ms", "250"), ("tick_policy", "fixed_cadence")] },
    { name := "traffic", entries := [("severe", "20")] }]

def mixedText : String :=
  "[vehicle]\nclass = bus\n" ++
  "[traffic]\nheavy = 075\nnear_segments = +3\nheavy = 1\n" ++
  "[session]\ncadence_ms = 250\ntick_policy = fixed_cadence\n" ++
  "[traffic]\nsevere = 20\n"

/-- One threshold is not below the default of the next. -/
def steepDocument : Document where
  sections := [{ name := "traffic", entries := [("heavy", "80")] }]

def steepText : String := "[traffic]\nheavy = 80\n"

theorem lays_mixedText : Lays mixedDocument mixedText.toList := by
  have h : mixedDocument.lines = mixedText.toList := by decide +kernel
  exact h ▸ Document.lays_lines (by decide +kernel)

theorem lays_steepText : Lays steepDocument steepText.toList := by
  have h : steepDocument.lines = steepText.toList := by decide +kernel
  exact h ▸ Document.lays_lines (by decide +kernel)

/-- The first values count; thresholds that do not rise with the defaults are refused. -/
theorem ofText_of_lays_mixed :
    ofText mixedText = .ok {
        polling := { policy := .fixedCadence 250 }
        smoother := { near := 3, thresholds := { heavy := 75 } } } ∧
      ∃ key value, ofText steepText = .error (.invalid key value) := by
  constructor
  · have h : Assignment.Written mixedDocument
        { policy := some .fixedCadence, cadence := some 250, heavy := some 75, near := some 3 } := {
      policy := .some rfl
      cadence := .some ⟨⟨"250".toList, .inl rfl, by decide, List.all_eq_true.mp rfl, by decide⟩, by decide⟩
      timeout := .none
      preview := .none
      enabled := .none
      near := .some ⟨⟨"3".toList, .inr rfl, by decide, List.all_eq_true.mp rfl, by decide⟩, by decide⟩
      far := .none
      moderate := .none
      heavy := .some ⟨⟨"075".toList, .inl rfl, by decide, List.all_eq_true.mp rfl, by decide⟩, by decide⟩
      severe := .none
      level := rfl
      directory := rfl
      nonempty := by decide }
    exact (ofText_of_lays lays_mixedText h).1 rfl
  · have h : Assignment.Written steepDocument { heavy := some 80 } := {
      policy := .none
      cadence := .none
      timeout := .none
      preview := .none
      enabled := .none
      near := .none
      far := .none
      moderate := .none
      heavy := .some ⟨⟨"80".toList, .inl rfl, by decide, List.all_eq_true.mp rfl, by decide⟩, by decide⟩
      severe := .none
      level := rfl
      directory := rfl
      nonempty := by decide }
    exact (ofText_of_lays lays_steepText h).2.1 (by decide)

end Settings
end LiveTrip
