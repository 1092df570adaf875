import LiveTrip.Proofs.Congestion.Bands
import LiveTrip.Proofs.Text.Ini
import LiveTrip.Proofs.Text.Numeral
import LiveTrip.Settings.Document

/-!
# Settings that are read back from their text

Numbers and names are always read back, so it is the texts of the logging that decide.

* `documentWith`, `toText_eq`: the text of settings is that of a document all of whose entries are
  read back, with the entries of the logging behind it.
* `ofDocument_toDocument`: the document of settings gives them back.
* `isValue_of_ofText`: what becomes of a logging that does not come back. A value that runs into the
  next line takes the directory with it, and any other one comes back changed.
* `ofText_toText_iff`: settings are read back if and only if their logging is.
-/

namespace LiveTrip.Settings

open Text Ini

/-! ## Sections -/

def pollingSection (p : Polling) : Section where
  name := "session"
  entries :=
    let (policy, cadence) := match p.policy with
      | .eventDriven => ("event_driven", defaultCadence)
      | .fixedCadence period => ("fixed_cadence", period)
    [("tick_policy", policy), ("cadence_ms", toString cadence),
      ("status_timeout_ms", toString p.timeout)]

def phaseSection (rule : PhaseRule) : Section where
  name := "phase"
  entries := [("preview_destination_without_routes", toString rule.preview)]

def smootherSection (s : SmootherSettings) : Section where
  name := "traffic"
  entries := [
    ("enabled", toString s.enabled),
    ("near_segments", toString s.near),
    ("far_segments", toString s.far),
    ("moderate", toString s.thresholds.moderate),
    ("heavy", toString s.thresholds.heavy),
    ("severe", toString s.thresholds.severe)]

def directoryEntries (l : Logging) : List (String × String) :=
  (l.directory.map fun d => ("directory", d)).toList

theorem directoryEntries_of_some {l : Logging} {dir : String} (h : l.directory = some dir) :
    directoryEntries l = [("directory", dir)] := by
  rw [directoryEntries, h]
  rfl

/-- The document of settings with only some entries of its last section. -/
def documentWith (s : Settings) (entries : List (String × String)) : Document where
  sections := [pollingSection s.polling, phaseSection s.phase, smootherSection s.smoother,
    { name := "logging", entries }]

theorem toDocument_eq (s : Settings) :
    s.toDocument = s.documentWith (("level", s.logging.level) :: directoryEntries s.logging) := by
  obtain ⟨⟨policy, timeout⟩, phase, smoother, logging⟩ := s
  cases policy <;> rfl

/-! ## Plain sections -/

/-- Visible characters of ASCII but for quotation marks. -/
def isGraphic (c : Char) : Bool := 0x21 ≤ c.toNat && c.toNat ≤ 0x7E && !isQuote c

/-- Such characters that mean nothing to the reader. -/
def isNameChar (c : Char) : Bool := isGraphic c && !isAssign c && !(";#[]".toList.contains c)

theorem isBlank_of_isGraphic {c : Char} (h : isGraphic c = true) : isBlank c = false := by
  simp only [isGraphic, Bool.and_eq_true, decide_eq_true_eq] at h
  simp only [isBlank, Bool.or_eq_false_iff, Bool.and_eq_false_iff, decide_eq_false_iff_not]
  omega

theorem isValue_of_isGraphic {s : List Char} (h : s.all isGraphic = true) : IsValue s := by
  have h : ∀ c ∈ s, isGraphic c = true := List.all_eq_true.mp h
  refine ⟨⟨trim_eq_self_iff.mpr ⟨?_, ?_⟩, fun hc => ?_, fun hc => ?_⟩, fun c hc => ?_⟩
  · exact fun c hc => isBlank_of_isGraphic (h c (List.mem_of_mem_head? hc))
  · exact fun c hc => isBlank_of_isGraphic (h c (List.mem_of_mem_getLast? hc))
  · cases h _ hc
  · cases h _ hc
  · have := h c (List.mem_of_mem_head? hc)
    simp only [isGraphic, Bool.and_eq_true, Bool.not_eq_true'] at this
    exact this.2

theorem isGraphic_of_isNameChar {s : List Char} (h : s.all isNameChar = true) :
    s.all isGraphic = true := by
  refine List.all_eq_true.mpr fun c hc => ?_
  have := List.all_eq_true.mp h c hc
  simp only [isNameChar, Bool.and_eq_true] at this
  exact this.1.1

theorem isKey_of_isNameChar {s : List Char} (h : s.all isNameChar = true) (hs : s ≠ []) :
    IsKey s := by
  have name (c : Char) (hc : c ∈ s) : isAssign c = false ∧ c ∉ [';', '#', '[', ']'] := by
    have := List.all_eq_true.mp h c hc
    simp only [isNameChar, Bool.and_eq_true, Bool.not_eq_true', List.contains_eq_mem,
      decide_eq_false_iff_not] at this
    exact ⟨this.1.2, this.2⟩
  exact ⟨(isValue_of_isGraphic (isGraphic_of_isNameChar h)).toIsClear, hs,
    fun c hc => (name c hc).1, fun c hc hmem =>
      (name c (List.mem_of_mem_head? hc)).2 (List.mem_append_left [']'] hmem)⟩

theorem isHeader_of_isNameChar {s : List Char} (h : s.all isNameChar = true) : IsHeader s where
  toIsClear := (isValue_of_isGraphic (isGraphic_of_isNameChar h)).toIsClear
  unclosed hc := by cases List.all_eq_true.mp h _ hc

theorem isValue_toString_nat (n : Nat) : IsValue (toString n).toList := by
  rw [Nat.toString_eq_repr, Nat.toList_repr]
  refine isValue_of_isGraphic (List.all_eq_true.mpr fun c hc => ?_)
  have hdigit := Nat.isDigit_of_mem_toDigits (by decide) (by decide) hc
  simp only [Char.isDigit, Bool.and_eq_true, decide_eq_true_eq, ge_iff_le,
    UInt32.le_iff_toNat_le] at hdigit
  have hlow : 48 ≤ c.toNat := hdigit.1
  have hhigh : c.toNat ≤ 57 := hdigit.2
  have hquote : isQuote c = false := by
    simp only [isQuote, Bool.or_eq_false_iff, decide_eq_false_iff_not]
    constructor <;> (rintro rfl; revert hlow; decide)
  simp only [isGraphic, hquote, Bool.not_false, Bool.and_true, Bool.and_eq_true, decide_eq_true_eq]
  omega

theorem isValue_toString_bool (b : Bool) : IsValue (toString b).toList := by
  cases b <;> exact isValue_of_isGraphic (by decide)

theorem isEntry {key value : String} (hkey : key.toList.all isNameChar = true)
    (hne : key.toList ≠ []) (hvalue : IsValue value.toList) : IsEntry (key, value) :=
  ⟨isKey_of_isNameChar hkey hne, hvalue⟩

theorem isPlain_pollingSection (p : Polling) : (pollingSection p).IsPlain where
  header := isHeader_of_isNameChar (s := "session".toList) (by decide)
  entries := by
    simp only [pollingSection, List.mem_cons, List.not_mem_nil, or_false, forall_eq_or_imp,
      forall_eq]
    refine ⟨isEntry (by decide) (by decide) ?_, isEntry (by decide) (by decide) ?_,
      isEntry (by decide) (by decide) (isValue_toString_nat _)⟩
    · cases p.policy with
      | eventDriven => exact isValue_of_isGraphic (s := "event_driven".toList) (by decide)
      | fixedCadence => exact isValue_of_isGraphic (s := "fixed_cadence".toList) (by decide)
    · exact isValue_toString_nat _

theorem isPlain_phaseSection (rule : PhaseRule) : (phaseSection rule).IsPlain where
  header := isHeader_of_isNameChar (s := "phase".toList) (by decide)
  entries := by
    simp only [phaseSection, List.mem_singleton, forall_eq]
    exact isEntry (by decide) (by decide) (isValue_toString_bool _)

theorem isPlain_smootherSection (s : SmootherSettings) : (smootherSection s).IsPlain where
  header := isHeader_of_isNameChar (s := "traffic".toList) (by decide)
  entries := by
    simp only [smootherSection, List.mem_cons, List.not_mem_nil, or_false, forall_eq_or_imp,
      forall_eq]
    exact ⟨isEntry (by decide) (by decide) (isValue_toString_bool _),
      isEntry (by decide) (by decide) (isValue_toString_nat _),
      isEntry (by decide) (by decide) (isValue_toString_nat _),
      isEntry (by decide) (by decide) (isValue_toString_nat _),
      isEntry (by decide) (by decide) (isValue_toString_nat _),
      isEntry (by decide) (by decide) (isValue_toString_nat _)⟩

theorem isPlain_documentWith (s : Settings) {entries : List (String × String)}
    (h : ∀ e ∈ entries, IsEntry e) : (s.documentWith entries).IsPlain where
  loose := by simp [documentWith]
  sections := by
    simp only [documentWith, List.mem_cons, List.not_mem_nil, or_false, forall_eq_or_imp,
      forall_eq]
    exact ⟨isPlain_pollingSection _, isPlain_phaseSection _, isPlain_smootherSection _,
      isHeader_of_isNameChar (s := "logging".toList) (by decide), h⟩

/-! ## What is read of a document -/

/-- The numbers are within the bounds of what is read. The thresholds need no bound of their own: those
of settings that can be used are percentages. -/
structure Fits (s : Settings) : Prop where
  cadence : ∀ period, s.polling.policy = .fixedCadence period → period < longBound
  timeout : s.polling.timeout < longBound
  near : s.smoother.near < longBound
  far : s.smoother.far < longBound

theorem assigned_eq {α : Type} {s : Section} {key raw : String} {read? : List Char → Option α}
    {a : α} (hvalue : s.value? key = some raw) (hread : read? (trim raw.toList) = some a) :
    assigned s key read? = .ok (some a) := by
  simp only [assigned, hvalue, hread]

theorem assigned_nat {s : Section} {key : String} {bound n : Nat}
    (hvalue : s.value? key = some (toString n)) (h : n < bound) :
    assigned s key (natOf? bound) = .ok (some n) := by
  refine assigned_eq hvalue ?_
  rw [(isValue_toString_nat n).trimmed, natOf?_toString h]

theorem assigned_bool {s : Section} {key : String} {b : Bool}
    (hvalue : s.value? key = some (toString b)) : assigned s key boolOf? = .ok (some b) := by
  refine assigned_eq hvalue ?_
  rw [(isValue_toString_bool b).trimmed]
  cases b <;> rfl

theorem readPolling_pollingSection {p : Polling} (q : Polling)
    (hcadence : ∀ period, p.policy = .fixedCadence period → period < longBound)
    (htimeout : p.timeout < longBound) : readPolling (pollingSection p) q = .ok p := by
  have htimeout : assigned (pollingSection p) "status_timeout_ms" (natOf? longBound) =
      .ok (some p.timeout) := assigned_nat rfl htimeout
  obtain ⟨policy, timeout⟩ := p
  cases policy with
  | eventDriven =>
    have hcadence : assigned (pollingSection ⟨.eventDriven, timeout⟩) "cadence_ms"
        (natOf? longBound) = .ok (some defaultCadence) := assigned_nat rfl (by decide)
    have hpolicy : (pollingSection ⟨.eventDriven, timeout⟩).value? "tick_policy" =
        some "event_driven" := rfl
    simp only [readPolling, hcadence, htimeout, hpolicy]
    rfl
  | fixedCadence period =>
    have hcadence : assigned (pollingSection ⟨.fixedCadence period, timeout⟩) "cadence_ms"
        (natOf? longBound) = .ok (some period) := assigned_nat rfl (hcadence period rfl)
    have hpolicy : (pollingSection ⟨.fixedCadence period, timeout⟩).value? "tick_policy" =
        some "fixed_cadence" := rfl
    simp only [readPolling, hcadence, htimeout, hpolicy]
    rfl

theorem readPhase_phaseSection (rule rule' : PhaseRule) :
    readPhase (phaseSection rule) rule' = .ok rule := by
  have hpreview : assigned (phaseSection rule) "preview_destination_without_routes" boolOf? =
      .ok (some rule.preview) := assigned_bool rfl
  simp only [readPhase, hpreview]
  rfl

theorem readSmoother_smootherSection {s : SmootherSettings} (s' : SmootherSettings)
    (hnear : s.near < longBound) (hfar : s.far < longBound) (hvalid : s.thresholds.Valid) :
    readSmoother (smootherSection s) s' = .ok s := by
  obtain ⟨-, hheavy, hsevere, hbound⟩ := hvalid
  have hbyte : 100 < byteBound := by decide
  have hread : ∀ key n bound, (smootherSection s).value? key = some (toString n) → n < bound →
      assigned (smootherSection s) key (natOf? bound) = .ok (some n) :=
    fun _ _ _ hvalue h => assigned_nat hvalue h
  have henabled : assigned (smootherSection s) "enabled" boolOf? = .ok (some s.enabled) :=
    assigned_bool rfl
  simp only [readSmoother, henabled, hread "near_segments" s.near longBound rfl hnear,
    hread "far_segments" s.far longBound rfl hfar,
    hread "moderate" s.thresholds.moderate byteBound rfl (by omega),
    hread "heavy" s.thresholds.heavy byteBound rfl (by omega),
    hread "severe" s.thresholds.severe byteBound rfl (by omega)]
  rfl

theorem bind_eq_ok {ε α β : Type} {x : Except ε α} {f : α → Except ε β} {b : β} :
    x >>= f = .ok b ↔ ∃ a, x = .ok a ∧ f a = .ok b := by
  cases x with
  | error e => exact ⟨nofun, nofun⟩
  | ok a => exact ⟨fun h => ⟨a, rfl, h⟩, fun ⟨_, h, hb⟩ => by cases h; exact hb⟩

theorem thresholds_valid {s : Settings} (h : s.validate = .ok ()) :
    s.smoother.thresholds.Valid := by
  obtain ⟨-, -, h⟩ := bind_eq_ok.mp h
  unfold SmootherSettings.validate at h
  split at h
  · cases h
  · exact Thresholds.validate_eq_ok.mp h

/-- The logging of settings that have been read is what the section of that name says. -/
theorem logging_of_ofDocument {d : Document} {s : Settings} (h : ofDocument d = .ok s) :
    s.logging = match d.section? "logging" with
      | some l => readLogging l {}
      | none => {} := by
  obtain ⟨s', hs, h⟩ := bind_eq_ok.mp h
  obtain ⟨-, -, h⟩ := bind_eq_ok.mp h
  cases h
  -- Each of the other sections is read if it is there, and nothing else depends on that.
  unfold overlay at hs
  simp only at hs
  split at hs
  all_goals obtain ⟨polling, -, hs⟩ := bind_eq_ok.mp hs
  all_goals split at hs
  all_goals obtain ⟨phase, -, hs⟩ := bind_eq_ok.mp hs
  all_goals split at hs
  all_goals obtain ⟨smoother, -, hs⟩ := bind_eq_ok.mp hs
  all_goals cases hs; rfl

/-- What is read of logging is trimmed, and a directory is not empty. -/
theorem logging_trimmed {d : Document} {s : Settings} (h : ofDocument d = .ok s) :
    trim s.logging.level.toList = s.logging.level.toList ∧
      ∀ dir, s.logging.directory = some dir → dir ≠ "" ∧ trim dir.toList = dir.toList := by
  rw [logging_of_ofDocument h]
  cases d.section? "logging" with
  | none => exact ⟨by decide, nofun⟩
  | some l =>
    refine ⟨?_, fun dir hdir => ?_⟩
    · simp only [readLogging]
      split
      · rw [String.toList_ofList, trim_trim]
      · decide
    · simp only [readLogging] at hdir
      split at hdir
      · split at hdir
        · cases hdir
        · rename_i hne
          cases hdir
          rw [String.toList_ofList, trim_trim]
          exact ⟨fun h => hne (List.isEmpty_iff.mpr (String.ofList_eq_empty_iff.mp h)), rfl⟩
      · cases hdir

/-- The level is the first value of its key. -/
theorem level_of_value? {d : Document} {s : Settings} (h : ofDocument d = .ok s) {value : String}
    (hvalue : d.value? "logging" "level" = some value) :
    s.logging.level = String.ofList (trim value.toList) := by
  obtain ⟨l, hl, hvalue⟩ := value?_eq_some.mp hvalue
  rw [logging_of_ofDocument h, hl]
  simp only [readLogging, hvalue]

/-- The directory is the first value of its key. -/
theorem directory_of_value? {d : Document} {s : Settings} (h : ofDocument d = .ok s) {dir : String}
    (hdir : s.logging.directory = some dir) :
    ∃ value, d.value? "logging" "directory" = some value ∧
      dir = String.ofList (trim value.toList) := by
  rw [logging_of_ofDocument h] at hdir
  cases hl : d.section? "logging" with
  | none => rw [hl] at hdir; cases hdir
  | some l =>
    rw [hl] at hdir
    simp only [readLogging] at hdir
    cases hvalue : l.value? "directory" with
    | none => rw [hvalue] at hdir; cases hdir
    | some value =>
      rw [hvalue] at hdir
      refine ⟨value, value?_eq_some.mpr ⟨l, hl, hvalue⟩, ?_⟩
      simp only at hdir
      split at hdir
      · cases hdir
      · exact (Option.some.inj hdir).symm

theorem readLogging_entries {l : Logging} (hlevel : IsValue l.level.toList)
    (hdir : ∀ d, l.directory = some d → d ≠ "" ∧ IsValue d.toList) :
    readLogging { name := "logging", entries := ("level", l.level) :: directoryEntries l } {} = l := by
  obtain ⟨level, directory⟩ := l
  have htrim : trim level.toList = level.toList := hlevel.trimmed
  cases directory with
  | none =>
    have hread : readLogging { name := "logging", entries := [("level", level)] } {} =
        { level := String.ofList (trim level.toList) } := rfl
    rw [htrim, String.ofList_toList] at hread
    exact hread
  | some d =>
    obtain ⟨hne, hd⟩ := hdir d rfl
    have hread : readLogging
        { name := "logging", entries := [("level", level), ("directory", d)] } {} =
        { level := String.ofList (trim level.toList)
          directory := if (trim d.toList).isEmpty then none
            else some (String.ofList (trim d.toList)) } := rfl
    have hempty : d.toList.isEmpty = false := by simpa using hne
    rw [htrim, hd.trimmed, hempty, String.ofList_toList, String.ofList_toList] at hread
    exact hread

theorem ofDocument_toDocument {s : Settings} (fits : s.Fits) (valid : s.validate = .ok ())
    (hlevel : IsValue s.logging.level.toList)
    (hdir : ∀ d, s.logging.directory = some d → d ≠ "" ∧ IsValue d.toList) :
    ofDocument s.toDocument = .ok s := by
  have hpolling := readPolling_pollingSection {} fits.cadence fits.timeout
  have hphase := readPhase_phaseSection s.phase {}
  have hsmoother := readSmoother_smootherSection {} fits.near fits.far (thresholds_valid valid)
  have hlogging := readLogging_entries hlevel hdir
  have hoverlay : overlay s.toDocument {} = .ok s := by
    rw [toDocument_eq]
    generalize ("level", s.logging.level) :: directoryEntries s.logging = entries at hlogging ⊢
    have h₁ : (s.documentWith entries).section? "session" = some (pollingSection s.polling) := rfl
    have h₂ : (s.documentWith entries).section? "phase" = some (phaseSection s.phase) := rfl
    have h₃ : (s.documentWith entries).section? "traffic" = some (smootherSection s.smoother) := rfl
    have h₄ : (s.documentWith entries).section? "logging" = some { name := "logging", entries } :=
      rfl
    simp only [overlay, h₁, h₂, h₃, h₄, hpolling, hphase, hsmoother, hlogging]
    rfl
  rw [ofDocument, hoverlay]
  exact bind_eq_ok.mpr ⟨s, rfl, bind_eq_ok.mpr ⟨(), valid, rfl⟩⟩

/-! ## The whole account -/

theorem isKey_level : IsKey "level".toList := isKey_of_isNameChar (by decide) (by decide)

theorem isKey_directory : IsKey "directory".toList := isKey_of_isNameChar (by decide) (by decide)

/-- The text of settings ends with their logging. -/
theorem toText_eq (s : Settings) : s.toText = (s.documentWith []).write ++
    writeEntries (("level", s.logging.level) :: directoryEntries s.logging) := by
  rw [toText, toDocument_eq]
  generalize ("level", s.logging.level) :: directoryEntries s.logging = entries
  have hsection : Section.write { name := "logging", entries } =
      Section.write { name := "logging" } ++ writeEntries entries := by
    simp [Section.write, writeEntries]
  simp [Document.write, documentWith, String.intercalate_cons_cons, hsection, String.append_assoc]

/-- Settings whose logging is read back are read back. -/
theorem ofText_toText {s : Settings} (fits : s.Fits) (valid : s.validate = .ok ())
    (hlevel : IsValue s.logging.level.toList)
    (hdir : ∀ d, s.logging.directory = some d → d ≠ "" ∧ IsValue d.toList) :
    ofText s.toText = .ok s := by
  have hplain : s.toDocument.IsPlain := by
    rw [toDocument_eq]
    refine isPlain_documentWith s (List.forall_mem_cons.mpr ⟨⟨isKey_level, hlevel⟩, fun e he => ?_⟩)
    obtain ⟨d, hd, rfl⟩ := Option.map_eq_some_iff.mp (Option.mem_toList.mp he)
    exact ⟨isKey_directory, (hdir d hd).2⟩
  rw [ofText, toText, Document.read?_write hplain]
  exact ofDocument_toDocument fits valid hlevel hdir

theorem ofText_eq_ok {text : String} {s : Settings} (h : ofText text = .ok s) :
    ∃ d, Document.read? text = some d ∧ ofDocument d = .ok s := by
  unfold ofText at h
  split at h
  · rename_i d hread
    exact ⟨d, hread, h⟩
  · cases h

/-- One more entry of the last section has been read. -/
theorem addValue_documentWith (s : Settings) (entries : List (String × String))
    (key : String) (value : List Char) :
    { Reading.ofDocument (s.documentWith entries) with pending := key.toList }.addValue value =
      Reading.ofDocument (s.documentWith (entries ++ [(key, String.ofList value)])) := by
  simp [Reading.ofDocument, Reading.addValue, documentWith, Section.reversed]

/-- A value that has been read of the last section is that of its key. -/
theorem value?_logging {s : Settings} {entries : List (String × String)} {fuel : Nat}
    {cursor : Cursor} {r : Reading}
    (h : readItems fuel (.ofDocument (s.documentWith entries)) cursor = some r) {key value : String}
    (hvalue : ({ name := "logging", entries } : Section).value? key = some value) :
    r.document.value? "logging" key = some value := by
  refine value?_readItems h ?_
  rw [Reading.document_ofDocument]
  exact value?_eq_some.mpr ⟨_, rfl, hvalue⟩

/-- A directory on the line after the level. -/
theorem isValue_directory {s : Settings} {level dir : String} {fuel column : Nat} {r : Reading}
    (h : readItems fuel (.ofDocument (s.documentWith [("level", level)]))
      (skipBlanks ('\n' :: (writeEntries [("directory", dir)]).toList) column) = some r)
    (hfuel : ('\n' :: (writeEntries [("directory", dir)]).toList).length < fuel)
    (hs : ofDocument r.document = .ok s) (hdir : s.logging.directory = some dir)
    (htrim : trim dir.toList = dir.toList) : IsValue dir.toList := by
  obtain ⟨fuel₁, column₁, hfuel₁, hline⟩ := reads_newline
    (.ofDocument (s.documentWith [("level", level)]))
    (fun c hc => isIndent_of_isBlank (head_writeEntries_cons isKey_directory [] [] c
      (by rwa [List.append_nil])))
    fuel column hfuel
  rw [hline, toList_writeEntries_cons] at h
  rw [toList_writeEntries_cons] at hfuel₁
  obtain ⟨value, next, fuel₂, hr, ⟨-, -, hvalue⟩ | ⟨-, hne, -⟩⟩ :=
    readItems_entry isKey_directory htrim hfuel₁ h
  · rw [addValue_documentWith] at hr
    obtain ⟨value', hvalue', hdir'⟩ := directory_of_value? hs hdir
    have hsame : r.document.value? "logging" "directory" = some (String.ofList value) :=
      value?_logging hr rfl
    cases hsame.symm.trans hvalue'
    refine hvalue ?_
    rw [hdir', String.toList_ofList, String.toList_ofList]
  · exact absurd rfl hne

/-- There is no directory behind the end of the last line. -/
theorem directory_eq_none {s : Settings} {level : String} {fuel column : Nat} {r : Reading}
    {u : List Char} (hu : u = [] ∨ u = ['\n'])
    (h : readItems fuel (.ofDocument (s.documentWith [("level", level)])) (skipBlanks u column) =
      some r) (hs : ofDocument r.document = .ok s) : s.logging.directory = none := by
  cases eq_of_readItems_end hu h
  rw [Reading.document_ofDocument] at hs
  by_contra hne
  obtain ⟨dir, hdir⟩ := Option.ne_none_iff_exists'.mp hne
  obtain ⟨value, hvalue, -⟩ := directory_of_value? hs hdir
  cases hvalue

/-- Settings that are read back have a logging that is. -/
theorem isValue_of_ofText {s : Settings} (h : ofText s.toText = .ok s) :
    IsValue s.logging.level.toList ∧
      ∀ d, s.logging.directory = some d → d ≠ "" ∧ IsValue d.toList := by
  obtain ⟨d, hread, hd⟩ := ofText_eq_ok h
  obtain ⟨hlevel, hdirectory⟩ := logging_trimmed hd
  have hplain : (s.documentWith []).IsPlain := isPlain_documentWith s (List.forall_mem_nil _)
  obtain ⟨fuel, column, hfuel, hitems⟩ := read?_write_append hplain
    (t := writeEntries (("level", s.logging.level) :: directoryEntries s.logging))
    (List.append_nil (writeEntries _).toList ▸ head_writeEntries_cons isKey_level _ [])
  rw [← toText_eq, hread] at hitems
  obtain ⟨r, hr, rfl⟩ := Option.map_eq_some_iff.mp hitems.symm
  rw [toList_writeEntries_cons] at hfuel hr
  obtain ⟨value, next, fuel₁, hr, hnext⟩ := readItems_entry isKey_level hlevel hfuel hr
  rw [addValue_documentWith, List.nil_append] at hr
  have hfirst : r.document.value? "logging" "level" = some (String.ofList value) :=
    value?_logging hr rfl
  have hback : trim value = s.logging.level.toList := by
    rw [level_of_value? hd hfirst, String.toList_ofList, String.toList_ofList]
  rcases hnext with ⟨hrest, hfuel₁, hvalue⟩ | ⟨hsuffix, hne, hend⟩
  · refine ⟨hvalue hback, fun dir hdir => ?_⟩
    obtain ⟨hne, htrim⟩ := hdirectory dir hdir
    rw [directoryEntries_of_some hdir] at hrest hfuel₁
    rw [hrest] at hr
    exact ⟨hne, isValue_directory hr hfuel₁ hd hdir htrim⟩
  · -- The value went on into the line of the directory, which is then not there any more.
    cases hdir : s.logging.directory with
    | none =>
      rw [directoryEntries, hdir] at hne
      exact absurd rfl hne
    | some dir =>
      rw [directoryEntries_of_some hdir] at hsuffix
      have hu := eq_nil_or_newline_of_entry hsuffix hend
      cases hdir.symm.trans (directory_eq_none hu hr hd)

/-- **Settings are read back from their text if and only if their logging is: its level, and its
directory if there is one, are trimmed, start with no quotation mark and have no vertical tab or form
feed, and the directory is not empty.** -/
theorem ofText_toText_iff {s : Settings} (fits : s.Fits) (valid : s.validate = .ok ()) :
    ofText s.toText = .ok s ↔ IsValue s.logging.level.toList ∧
      ∀ d, s.logging.directory = some d → d ≠ "" ∧ IsValue d.toList :=
  ⟨isValue_of_ofText, fun ⟨hlevel, hdir⟩ => ofText_toText fits valid hlevel hdir⟩

/-- Line feeds, backslashes and what starts comments and sections come back; a quotation mark at the
start does not. -/
theorem ofText_toText_special :
    ofText (toText { logging := ⟨"#;[x]=\\\n a", some "=\t\r\\x0041"⟩ }) =
        .ok { logging := ⟨"#;[x]=\\\n a", some "=\t\r\\x0041"⟩ } ∧
      ofText (toText { logging := ⟨"'debug", none⟩ }) ≠ .ok { logging := ⟨"'debug", none⟩ } := by
  have fits (l : Logging) : Fits { logging := l } :=
    ⟨nofun, show 2000 < longBound by decide, show 8 < longBound by decide,
      show 4 < longBound by decide⟩
  refine ⟨(ofText_toText_iff (fits _) rfl).mpr ⟨by decide, fun d hd => ?_⟩, fun h => ?_⟩
  · cases hd
    exact ⟨by decide, by decide⟩
  · exact absurd ((ofText_toText_iff (fits _) rfl).mp h).1 (by decide)

end LiveTrip.Settings
