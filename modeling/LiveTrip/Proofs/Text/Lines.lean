import LiveTrip.Proofs.Text.Ini

/-!
# Documents laid out in lines

The texts that people write: headers, keys and values without escapes, with blanks around them, and
empty lines anywhere.

* `IsHeaderText`, `IsKeyText`, `IsValueText`: how a name, a key and a value stand in their line.
* `Lays`: a text lays out a document. It is built from its last line up, so that a header takes the
  entries that are below it.
* `Lays.read?_eq`: such a text is read as the document.
* `Document.lines`, `Document.lays_lines`: the text of a document with a line `key = value` for each
  entry, which lays it out.
-/

namespace LiveTrip.Ini

open Text

/-! ## What stands in a line -/

/-- A stretch of a line without escapes. -/
def IsRaw (s : List Char) : Prop := ∀ c ∈ s, c ≠ '\\' ∧ isLineBreak c = false

/-- A line, or the text, ends before what is left. -/
def AtLineEnd (t : List Char) : Prop := ∀ c ∈ t.head?, isLineBreak c = true

/-- A name between its brackets. -/
structure IsHeaderText (s : List Char) (name : String) : Prop where
  raw : IsRaw s
  trimmed : trim s = name.toList
  unclosed : ']' ∉ s

/-- A key before its mark. -/
structure IsKeyText (s : List Char) (key : String) : Prop where
  raw : IsRaw s
  trimmed : trim s = key.toList
  unassigned : ∀ c ∈ s, isAssign c = false
  /-- The line is neither empty nor indented, and neither a comment nor a header. -/
  start : ∃ c, s.head? = some c ∧ isBlank c = false ∧ c ∉ [';', '#', '[']

/-- A value behind the mark. -/
structure IsValueText (s : List Char) (value : String) : Prop where
  raw : IsRaw s
  trimmed : trim s = value.toList
  unquoted : ∀ c ∈ value.toList.head?, isQuote c = false

instance (s : List Char) : Decidable (IsRaw s) :=
  List.decidableBAll (fun c => c ≠ '\\' ∧ isLineBreak c = false) s

instance (s : List Char) (name : String) : Decidable (IsHeaderText s name) :=
  decidable_of_iff (IsRaw s ∧ trim s = name.toList ∧ ']' ∉ s)
    ⟨fun ⟨h₁, h₂, h₃⟩ => ⟨h₁, h₂, h₃⟩, fun ⟨h₁, h₂, h₃⟩ => ⟨h₁, h₂, h₃⟩⟩

instance (s : List Char) (key : String) : Decidable (IsKeyText s key) :=
  decidable_of_iff (IsRaw s ∧ trim s = key.toList ∧ s.all (!isAssign ·) = true ∧
      s.head?.any (fun c => isBlank c = false ∧ c ∉ [';', '#', '[']) = true)
    ⟨fun ⟨h₁, h₂, h₃, h₄⟩ => ⟨h₁, h₂, by simpa using h₃, by simpa [Option.any_eq_true] using h₄⟩,
      fun ⟨h₁, h₂, h₃, h₄⟩ => ⟨h₁, h₂, by simpa using h₃, by simpa [Option.any_eq_true] using h₄⟩⟩

instance (s : List Char) (value : String) : Decidable (IsValueText s value) :=
  decidable_of_iff (IsRaw s ∧ trim s = value.toList ∧ value.toList.head?.all (!isQuote ·) = true)
    ⟨fun ⟨h₁, h₂, h₃⟩ => ⟨h₁, h₂, by simpa [Option.all_eq_true] using h₃⟩,
      fun ⟨h₁, h₂, h₃⟩ => ⟨h₁, h₂, by simpa [Option.all_eq_true] using h₃⟩⟩

/-- A text lays out a document. -/
inductive Lays : Document → List Char → Prop
  | nil : Lays {} []
  /-- The end of a line, or an empty line. -/
  | lineBreak {d : Document} {c : Char} {t : List Char} (hc : isLineBreak c = true)
      (h : Lays d t) : Lays d (c :: t)
  | entry {d : Document} {s u t : List Char} {key value : String} (hkey : IsKeyText s key)
      (hvalue : IsValueText u value) (ht : AtLineEnd t) (h : Lays d t) :
      Lays { d with loose := (key, value) :: d.loose } (s ++ '=' :: u ++ t)
  /-- A header, with the entries below it up to the next one. -/
  | header {d : Document} {s t : List Char} {name : String} (hname : IsHeaderText s name)
      (h : Lays d t) : Lays { sections := ⟨name, d.loose⟩ :: d.sections } ('[' :: s ++ ']' :: t)

variable {d : Document} {r : Reading} {s t u : List Char} {name key value : String}

theorem isQuote_of_isLineBreak {c : Char} (h : isLineBreak c = true) : isQuote c = false := by
  rcases isLineBreak_iff.mp h with rfl | rfl <;> rfl

theorem isIndent_of_isLineBreak {c : Char} (h : isLineBreak c = true) : isIndent c = false := by
  rcases isLineBreak_iff.mp h with rfl | rfl <;> rfl

theorem IsRaw.of_suffix (h : IsRaw s) (hu : u <:+ s) : IsRaw u := fun c hc => h c (hu.subset hc)

theorem IsKeyText.nonempty (h : IsKeyText s key) : key.toList ≠ [] := by
  obtain ⟨c, hc, hblank, -⟩ := h.start
  have hstart : trimStart s = s := trimStart_eq_self_iff.mpr fun d hd => by
    cases hc.symm.trans hd
    exact hblank
  have hhead : key.toList.head? = some c := by rw [← h.trimmed, head?_trim, hstart, hc]
  rintro hnil
  rw [hnil] at hhead
  cases hhead

/-! ## Stretches -/

theorem readUntil_raw_append (stop : Char → Bool) (atEnd : Bool)
    (h : ∀ c ∈ s, c ≠ '\\' ∧ stop c = false) (t : List Char) (column : Nat) (acc : List Char) :
    ∃ column', readUntil stop atEnd (s ++ t) column acc =
      readUntil stop atEnd t column' (s.reverse ++ acc) := by
  induction s generalizing column acc with
  | nil => exact ⟨column, rfl⟩
  | cons c s ih =>
    obtain ⟨hb, hstop⟩ := h c List.mem_cons_self
    obtain ⟨column', hs⟩ := ih (fun d hd => h d (List.mem_cons_of_mem _ hd))
      (Cursor.columnAfter column c) (c :: acc)
    refine ⟨column', ?_⟩
    rw [List.cons_append, readUntil_cons hb, hstop, List.reverse_cons, List.append_assoc,
      List.singleton_append, ← hs]
    rfl

/-- A stretch without escapes is read up to its end mark. -/
theorem readUntil_raw (stop : Char → Bool) (atEnd : Bool)
    (h : ∀ c ∈ s, c ≠ '\\' ∧ stop c = false) {c : Char} (hc : stop c = true) (hb : c ≠ '\\')
    (t : List Char) (column : Nat) :
    ∃ column', readUntil stop atEnd (s ++ c :: t) column [] = .ended s ⟨c :: t, column'⟩ := by
  obtain ⟨column', hs⟩ := readUntil_raw_append stop atEnd h (c :: t) column []
  refine ⟨column', ?_⟩
  rw [hs, readUntil_cons hb, hc, List.append_nil]
  simp only [↓reduceIte, List.reverse_reverse]

/-- The rest of a line is read up to its end. -/
theorem readUntil_line (h : IsRaw s) (ht : AtLineEnd t) (column : Nat) :
    ∃ column', readUntil isLineBreak true (s ++ t) column [] = .ended s ⟨t, column'⟩ := by
  cases t with
  | nil =>
    obtain ⟨column', hs⟩ := readUntil_raw_append isLineBreak true h [] column []
    refine ⟨column', ?_⟩
    rw [hs, List.append_nil]
    simp only [readUntil, ↓reduceIte, List.reverse_reverse]
  | cons c t =>
    have hc : isLineBreak c = true := ht c rfl
    exact readUntil_raw isLineBreak true h hc (by rintro rfl; cases hc) t column

/-- Blanks before a value are passed over, up to the end of the line. -/
theorem skipWhile_line (h : IsRaw s) (ht : AtLineEnd t) (column : Nat) :
    ∃ column', skipWhile (fun b => isBlank b && !isLineBreak b) (s ++ t) column =
      ⟨trimStart s ++ t, column'⟩ := by
  induction s generalizing column with
  | nil =>
    refine ⟨column, skipWhile_of_head (fun c hc => ?_) column⟩
    rw [ht c hc, Bool.not_true, Bool.and_false]
  | cons c s ih =>
    have hc := (h c List.mem_cons_self).2
    rw [List.cons_append, skipWhile, trimStart, List.dropWhile_cons, hc, Bool.not_false,
      Bool.and_true]
    split
    · exact ih (fun d hd => h d (List.mem_cons_of_mem _ hd)) _
    · exact ⟨column, rfl⟩

/-! ## Items -/

theorem readItem_headerText (h : IsHeaderText s name) (r : Reading) (fuel : Nat) (t : List Char)
    (column : Nat) :
    ∃ column', readItem fuel r ('[' :: s ++ ']' :: t) column =
      some (r.openSection name.toList, ⟨t, column'⟩) := by
  obtain ⟨column', hread⟩ := readUntil_raw (· = ']') false (s := s)
    (fun c hc => ⟨(h.raw c hc).1, decide_eq_false fun h' => h.unclosed (h' ▸ hc)⟩) (c := ']') rfl
    (by decide) t (column + 1)
  refine ⟨column' + 1, ?_⟩
  have hitem : readItem fuel r ('[' :: s ++ ']' :: t) column =
      readSection r (s ++ ']' :: t) (column + 1) := rfl
  rw [hitem, readSection, hread]
  simp only [h.trimmed]

theorem readItem_keyText (h : IsKeyText s key) (r : Reading) (fuel : Nat) (t : List Char)
    (column : Nat) :
    ∃ column', readItem fuel r (s ++ '=' :: t) column =
      some ({ r with pending := key.toList }, ⟨'=' :: t, column'⟩) := by
  obtain ⟨column', hread⟩ := readUntil_raw isAssign false (s := s)
    (fun c hc => ⟨(h.raw c hc).1, h.unassigned c hc⟩) (c := '=') rfl (by decide) t column
  obtain ⟨c, hc, hblank, hstart⟩ := h.start
  obtain ⟨rest, rfl⟩ := List.head?_eq_some_iff.mp hc
  refine ⟨column', ?_⟩
  rw [← h.trimmed]
  exact readItem_of_key hblank hstart (h.unassigned c List.mem_cons_self) hread

/-- The value of a stretch whose leading blanks have been passed over. -/
theorem readValue_line (h : IsValueText s value) (ht : AtLineEnd t) (fuel column : Nat) :
    ∃ column', readValue (fuel + 1) (trimStart s ++ t) column true [] =
      .ended value.toList ⟨t, column'⟩ := by
  have hraw : IsRaw (trimStart s) := h.raw.of_suffix (suffix_trimStart s)
  obtain ⟨column', hread⟩ := readUntil_line hraw ht column
  have htrim : trim (trimStart s) = value.toList := by
    rw [← h.trimmed, trim, trim, trimStart, trimStart, List.dropWhile_idempotent]
  have hhead : ∀ c ∈ (trimStart s ++ t).head?, isQuote c = false := by
    intro c hc
    rw [List.head?_append] at hc
    rcases Option.or_eq_some_iff.mp hc with hc | ⟨-, hc⟩
    · refine h.unquoted c ?_
      rw [← h.trimmed, head?_trim]
      exact hc
    · exact isQuote_of_isLineBreak (ht c hc)
  cases hs : trimStart s ++ t with
  | nil =>
    obtain ⟨hnil, rfl⟩ := List.append_eq_nil_iff.mp hs
    rw [hnil] at htrim
    rw [← htrim]
    exact ⟨column, rfl⟩
  | cons c more =>
    rw [hs] at hread hhead
    refine ⟨column', ?_⟩
    rw [readValue_plain (hhead c rfl), hread]
    simp only [↓reduceIte, htrim, List.nil_append]

theorem readItem_valueText (h : IsValueText s value) (ht : AtLineEnd t) (hr : r.pending ≠ [])
    (fuel column : Nat) :
    ∃ column', readItem (fuel + 1) r ('=' :: s ++ t) column =
      some (r.addValue value.toList, ⟨t, column'⟩) := by
  obtain ⟨column₁, hskip⟩ := skipWhile_line h.raw ht (column + 1)
  obtain ⟨column₂, hread⟩ := readValue_line h ht fuel column₁
  refine ⟨column₂, ?_⟩
  rw [List.cons_append, readItem_assign hr, hskip]
  simp only [hread]

/-! ## Reading on -/

theorem reads_headerText (h : IsHeaderText s name) (r : Reading) (t : List Char) :
    Reads r ('[' :: s ++ ']' :: t) (r.openSection name.toList) t := by
  refine reads_of_item (by simp) (by rintro c hc; cases hc; rfl) ?_
    fun fuel column => readItem_headerText h r _ t column
  simp only [List.cons_append, List.length_cons, List.length_append]
  omega

theorem reads_keyText (h : IsKeyText s key) (r : Reading) (t : List Char) :
    Reads r (s ++ '=' :: t) { r with pending := key.toList } ('=' :: t) := by
  obtain ⟨c, hc, hblank, -⟩ := id h.start
  obtain ⟨rest, rfl⟩ := List.head?_eq_some_iff.mp hc
  refine reads_of_item (by simp) (by rintro d hd; cases hd; exact hblank) ?_
    fun fuel column => readItem_keyText h r _ t column
  simp only [List.cons_append, List.length_cons, List.length_append]
  omega

theorem reads_valueText (h : IsValueText s value) (ht : AtLineEnd t) (hr : r.pending ≠ []) :
    Reads r ('=' :: s ++ t) (r.addValue value.toList) t := by
  refine reads_of_item (by simp) (by rintro c hc; cases hc; rfl) ?_
    fun fuel column => readItem_valueText h ht hr fuel column
  simp only [List.cons_append, List.length_cons, List.length_append]
  omega

/-! ## Documents -/

/-- The entries and then the sections of a document have been read. -/
def Reading.addDocument (r : Reading) (d : Document) : Reading :=
  d.sections.foldl addSection (d.loose.foldl addEntry r)

/-- What is laid out starts with no indentation. -/
theorem Lays.head (h : Lays d s) : ∀ c ∈ s.head?, isIndent c = false := by
  cases h with
  | nil => nofun
  | lineBreak hc h =>
    rintro d hd
    cases hd
    exact isIndent_of_isLineBreak hc
  | entry hkey hvalue ht h =>
    obtain ⟨c, hc, hblank, -⟩ := hkey.start
    obtain ⟨rest, rfl⟩ := List.head?_eq_some_iff.mp hc
    rintro d hd
    cases hd
    exact isIndent_of_isBlank hblank
  | header hname h =>
    rintro d hd
    cases hd
    rfl

theorem Lays.reads (h : Lays d s) (r : Reading) : Reads r s (r.addDocument d) [] := by
  induction h generalizing r with
  | nil => exact .refl r []
  | lineBreak hc h ih => exact (reads_lineBreak r hc h.head).trans (ih r)
  | @entry d s u t key value hkey hvalue ht h ih =>
    have hread : Reads r (s ++ '=' :: u ++ t) (r.addEntry (key, value)) t := by
      rw [List.append_assoc, List.cons_append]
      exact (reads_keyText hkey r _).trans (reads_valueText hvalue ht hkey.nonempty)
    exact hread.trans (ih _)
  | header hname h ih => exact (reads_headerText hname r _).trans (ih _)

/-- At its start, too, all blanks of such a text are passed over. -/
theorem Lays.skipWhile_eq (h : Lays d s) (column : Nat) :
    skipWhile isBlank s column = skipBlanks s column := by
  induction h generalizing column with
  | nil => rfl
  | lineBreak hc h ih =>
    rw [skipBlanks_lineBreak hc h.head, skipWhile, isBlank_of_isLineBreak hc, ← ih]
    rfl
  | @entry d s u t key value hkey hvalue ht h ih =>
    obtain ⟨c, hc, hblank, -⟩ := hkey.start
    obtain ⟨rest, rfl⟩ := List.head?_eq_some_iff.mp hc
    have hhead : ∀ d ∈ (c :: rest ++ '=' :: u ++ t).head?, isBlank d = false := by
      rintro d hd
      cases hd
      exact hblank
    rw [skipWhile_of_head hhead, skipBlanks_of_head hhead]
  | header hname h ih =>
    rw [skipWhile_of_head (by rintro c hc; cases hc; rfl),
      skipBlanks_of_head (by rintro c hc; cases hc; rfl)]

/-- **A text that lays out a document is read as that document.** -/
theorem Lays.read?_eq {text : String} (h : Lays d text.toList) : Document.read? text = some d := by
  obtain ⟨fuel, column, hfuel, hread⟩ := h.reads {} (text.toList.length + 1) 0 (Nat.lt_succ_self _)
  obtain ⟨fuel, rfl⟩ := Nat.exists_eq_succ_of_ne_zero (Nat.ne_of_gt hfuel)
  rw [Document.read?, h.skipWhile_eq, hread, Reading.addDocument, Reading.foldl_document]
  exact congrArg some (Reading.document_ofDocument d)

/-- Every value of such a document is trimmed. -/
theorem Lays.trimmed (h : Lays d s) :
    (∀ e ∈ d.loose, trim e.2.toList = e.2.toList) ∧
      ∀ section' ∈ d.sections, ∀ e ∈ section'.entries, trim e.2.toList = e.2.toList := by
  induction h with
  | nil => exact ⟨nofun, nofun⟩
  | lineBreak hc h ih => exact ih
  | entry hkey hvalue ht h ih =>
    refine ⟨List.forall_mem_cons.mpr ⟨?_, ih.1⟩, ih.2⟩
    rw [← hvalue.trimmed, trim_trim]
  | header hname h ih => exact ⟨nofun, List.forall_mem_cons.mpr ih⟩

theorem Lays.trim_value? (h : Lays d s) (hvalue : d.value? name key = some value) :
    trim value.toList = value.toList := by
  obtain ⟨section', hs, hvalue⟩ := value?_eq_some.mp hvalue
  obtain ⟨e, he, rfl⟩ := Option.map_eq_some_iff.mp hvalue
  exact h.trimmed.2 section' (List.mem_of_find?_eq_some hs) e (List.mem_of_find?_eq_some he)

/-! ## A line for each entry -/

/-- Lines `key = value`. -/
def entryLines (es : List (String × String)) : List Char :=
  es.flatMap fun e => e.1.toList ++ " = ".toList ++ e.2.toList ++ ['\n']

/-- Headers, each with the lines of its section. -/
def sectionLines (ss : List Section) : List Char :=
  ss.flatMap fun s => '[' :: s.name.toList ++ "]\n".toList ++ entryLines s.entries

/-- The lines of a document. -/
def Document.lines (d : Document) : List Char := entryLines d.loose ++ sectionLines d.sections

/-- A key and a value that can stand in a line as they are. -/
def IsLine (e : String × String) : Prop := IsKeyText e.1.toList e.1 ∧ IsValueText e.2.toList e.2

/-- All names, keys and values can stand in lines as they are. -/
def Document.IsLined (d : Document) : Prop :=
  (∀ e ∈ d.loose, IsLine e) ∧
    ∀ s ∈ d.sections, IsHeaderText s.name.toList s.name ∧ ∀ e ∈ s.entries, IsLine e

instance (e : String × String) : Decidable (IsLine e) := inferInstanceAs (Decidable (_ ∧ _))

instance (d : Document) : Decidable d.IsLined := inferInstanceAs (Decidable (_ ∧ _))

theorem IsKeyText.concat_blank (h : IsKeyText s key) : IsKeyText (s ++ [' ']) key where
  raw c hc := by
    rcases List.mem_append.mp hc with hc | hc
    · exact h.raw c hc
    · cases List.mem_singleton.mp hc
      decide
  trimmed := by rw [trim_concat_of_isBlank rfl, h.trimmed]
  unassigned c hc := by
    rcases List.mem_append.mp hc with hc | hc
    · exact h.unassigned c hc
    · cases List.mem_singleton.mp hc
      rfl
  start := by
    obtain ⟨c, hc, hstart⟩ := h.start
    obtain ⟨rest, rfl⟩ := List.head?_eq_some_iff.mp hc
    exact ⟨c, rfl, hstart⟩

theorem IsValueText.cons_blank (h : IsValueText s value) : IsValueText (' ' :: s) value where
  raw := List.forall_mem_cons.mpr ⟨by decide, h.raw⟩
  trimmed := by rw [trim_cons_of_isBlank rfl, h.trimmed]
  unquoted := h.unquoted

theorem lays_entryLines {es : List (String × String)} (hes : ∀ e ∈ es, IsLine e) (h : Lays d t) :
    Lays { d with loose := es ++ d.loose } (entryLines es ++ t) := by
  induction es with
  | nil => exact h
  | cons e es ih =>
    obtain ⟨⟨hkey, hvalue⟩, hes⟩ := List.forall_mem_cons.mp hes
    have hline : entryLines (e :: es) ++ t =
        (e.1.toList ++ [' ']) ++ '=' :: (' ' :: e.2.toList) ++ ('\n' :: (entryLines es ++ t)) := by
      simp [entryLines]
    rw [hline]
    exact .entry hkey.concat_blank hvalue.cons_blank (by rintro c hc; cases hc; rfl)
      (.lineBreak rfl (ih hes))

theorem lays_sectionLines {ss : List Section}
    (hss : ∀ s ∈ ss, IsHeaderText s.name.toList s.name ∧ ∀ e ∈ s.entries, IsLine e) :
    Lays { sections := ss } (sectionLines ss) := by
  induction ss with
  | nil => exact .nil
  | cons section' ss ih =>
    obtain ⟨⟨hname, hes⟩, hss⟩ := List.forall_mem_cons.mp hss
    have hbelow := lays_entryLines hes (ih hss)
    rw [List.append_nil] at hbelow
    have hlines : sectionLines (section' :: ss) = '[' :: section'.name.toList ++
        ']' :: '\n' :: (entryLines section'.entries ++ sectionLines ss) := by
      simp [sectionLines]
    rw [hlines]
    exact .header hname (.lineBreak rfl hbelow)

/-- **The lines of a document lay it out.** -/
theorem Document.lays_lines (h : d.IsLined) : Lays d d.lines := by
  have hd := lays_entryLines h.1 (lays_sectionLines h.2)
  rw [List.append_nil] at hd
  exact hd

end LiveTrip.Ini
