import LiveTrip.Proofs.Text.Escapes

/-!
# Documents and how they are read back

* `IsHeader`, `IsKey`, `IsValue`: what a name, a key and a value have to be like to be read back as
  they were written.
* `Reads`: reading goes on from one text to another, whatever else is still to be read.
* `Reading.ofDocument`, `reads_document`: what has been read when a written document has.
* `Document.read?_write`: a written document is read back.
* `readItems_value`: how reading goes on from any value, also one that is not read back.
* `Reading.value?_readItems`: what has been read of a value is not read again.
-/

namespace LiveTrip.Ini

open Text

/-! ## What is read back -/

/-- A text that is neither trimmed nor changed by its escapes. -/
structure IsClear (s : List Char) : Prop where
  trimmed : trim s = s
  noTab : '\x0b' ∉ s
  noFeed : '\x0c' ∉ s

/-- A name that a section can have. -/
structure IsHeader (s : List Char) : Prop extends IsClear s where
  unclosed : ']' ∉ s

structure IsKey (s : List Char) : Prop extends IsClear s where
  nonempty : s ≠ []
  unassigned : ∀ c ∈ s, isAssign c = false
  /-- It is neither a comment nor a section. -/
  start : ∀ c ∈ s.head?, c ∉ [';', '#', '[']

structure IsValue (s : List Char) : Prop extends IsClear s where
  unquoted : ∀ c ∈ s.head?, isQuote c = false

instance (s : List Char) : Decidable (IsClear s) :=
  decidable_of_iff (trim s = s ∧ '\x0b' ∉ s ∧ '\x0c' ∉ s)
    ⟨fun ⟨h₁, h₂, h₃⟩ => ⟨h₁, h₂, h₃⟩, fun ⟨h₁, h₂, h₃⟩ => ⟨h₁, h₂, h₃⟩⟩

instance (s : List Char) : Decidable (IsValue s) :=
  decidable_of_iff (IsClear s ∧ s.head?.all (!isQuote ·) = true)
    ⟨fun ⟨h₁, h₂⟩ => ⟨h₁, by simpa [Option.all_eq_true] using h₂⟩,
      fun ⟨h₁, h₂⟩ => ⟨h₁, by simpa [Option.all_eq_true] using h₂⟩⟩

def IsEntry (e : String × String) : Prop := IsKey e.1.toList ∧ IsValue e.2.toList

structure Section.IsPlain (s : Section) : Prop where
  header : IsHeader s.name.toList
  entries : ∀ e ∈ s.entries, IsEntry e

structure Document.IsPlain (d : Document) : Prop where
  loose : ∀ e ∈ d.loose, IsEntry e
  sections : ∀ s ∈ d.sections, s.IsPlain

theorem IsClear.map_readBack {s : List Char} (h : IsClear s) : s.map readBack = s :=
  map_readBack_eq_self.mpr ⟨h.noTab, h.noFeed⟩

theorem IsClear.head {s : List Char} (h : IsClear s) : ∀ c ∈ s.head?, isBlank c = false :=
  (trim_eq_self_iff.mp h.trimmed).1

/-- A written text starts as the text does, or with a backslash. -/
theorem head_written {s : List Char} {p : Char → Prop} (hs : ∀ c ∈ s.head?, p c) (hb : p '\\') :
    ∀ c ∈ (written s).head?, p c := by
  cases s with
  | nil => simp
  | cons d s =>
    rw [written_cons]
    rcases escape_cases d with ⟨-, -, hd⟩ | ⟨rest, hd⟩
    · rw [hd]
      rintro c hc
      cases hc
      exact hs d rfl
    · rw [hd]
      rintro c hc
      cases hc
      exact hb

theorem written_ne_nil {s : List Char} (h : s ≠ []) : written s ≠ [] := by
  cases s with
  | nil => exact absurd rfl h
  | cons c s =>
    rw [written_cons]
    rcases escape_cases c with ⟨-, -, hc⟩ | ⟨rest, hc⟩ <;> simp [hc]

/-- A written text starts with no blank, and neither does what it is the start of. -/
theorem head_written_append {s t : List Char} (hs : ∀ c ∈ s.head?, isBlank c = false)
    (ht : ∀ c ∈ t.head?, isBlank c = false) : ∀ c ∈ (written s ++ t).head?, isBlank c = false := by
  intro c hc
  rw [List.head?_append] at hc
  rcases Option.or_eq_some_iff.mp hc with hc | ⟨-, hc⟩
  · exact head_written hs (by decide) c hc
  · exact ht c hc

/-! ## Between items -/

theorem skipBlanks_of_head {s : List Char} (h : ∀ c ∈ s.head?, isBlank c = false) (column : Nat) :
    skipBlanks s column = ⟨s, column⟩ := by
  cases s with
  | nil => rfl
  | cons c s =>
    have hc := h c rfl
    simp only [skipBlanks, hc, Bool.false_eq_true, ↓reduceIte]

theorem skipWhile_of_head {p : Char → Bool} {s : List Char} (h : ∀ c ∈ s.head?, p c = false)
    (column : Nat) : skipWhile p s column = ⟨s, column⟩ := by
  cases s with
  | nil => rfl
  | cons c s =>
    have hc := h c rfl
    simp only [skipWhile, hc, Bool.false_eq_true, ↓reduceIte]

theorem isLineBreak_iff {c : Char} : isLineBreak c = true ↔ c = '\n' ∨ c = '\r' := by
  simp [isLineBreak]

theorem isBlank_of_isLineBreak {c : Char} (h : isLineBreak c = true) : isBlank c = true := by
  rcases isLineBreak_iff.mp h with rfl | rfl <;> rfl

theorem skipBlanks_lineBreak {c : Char} (hc : isLineBreak c = true) {s : List Char}
    (h : ∀ c ∈ s.head?, isIndent c = false) (column : Nat) :
    skipBlanks (c :: s) column = skipBlanks s (Cursor.columnAfter column c) := by
  have hany : s.head?.any isIndent = false := by
    cases hs : s.head? with
    | none => rfl
    | some c => exact h c hs
  simp only [skipBlanks, hc, hany, isBlank_of_isLineBreak hc, Bool.and_false, Bool.false_eq_true,
    ↓reduceIte]

theorem isIndent_of_isBlank {c : Char} (h : isBlank c = false) : isIndent c = false := by
  simp only [isIndent, Bool.or_eq_false_iff, decide_eq_false_iff_not]
  constructor <;> (rintro rfl; cases h)

theorem isLineBreak_of_isBlank {c : Char} (h : isBlank c = false) : isLineBreak c = false := by
  simp only [isLineBreak, Bool.or_eq_false_iff, decide_eq_false_iff_not]
  constructor <;> (rintro rfl; cases h)

/-! ## Items -/

theorem readItem_header {name : List Char} (h : IsHeader name) (r : Reading) (fuel : Nat)
    (t : List Char) (column : Nat) :
    ∃ column', readItem fuel r ('[' :: written name ++ ']' :: t) column =
      some (r.openSection name, ⟨t, column'⟩) := by
  obtain ⟨column', hread⟩ := readUntil_written (· = ']') false (s := name)
    (fun c hc => .inl (decide_eq_false fun h' => h.unclosed (h' ▸ hc))) (c := ']') rfl (by decide) t
    (column + 1)
  refine ⟨column' + 1, ?_⟩
  have hitem : readItem fuel r ('[' :: written name ++ ']' :: t) column =
      readSection r (written name ++ ']' :: t) (column + 1) := rfl
  rw [hitem, readSection, hread, h.map_readBack]
  simp only [h.trimmed]

/-- The item of a key, by its first character. -/
theorem readItem_of_key {c : Char} {s key : List Char} {r : Reading} {fuel column : Nat}
    {next : Cursor} (hblank : isBlank c = false) (hstart : c ∉ [';', '#', '['])
    (hassign : isAssign c = false)
    (hread : readUntil isAssign false (c :: s) column [] = .ended key next) :
    readItem fuel r (c :: s) column = some ({ r with pending := trim key }, next) := by
  simp only [List.mem_cons, List.not_mem_nil, or_false, not_or] at hstart
  simp only [readItem, hstart, hassign, isIndent_of_isBlank hblank, isLineBreak_of_isBlank hblank,
    or_self, Bool.false_eq_true, ↓reduceIte, hread]

theorem readItem_key {key : List Char} (h : IsKey key) (r : Reading) (fuel : Nat)
    (t : List Char) (column : Nat) :
    ∃ column', readItem fuel r (written key ++ '=' :: t) column =
      some ({ r with pending := key }, ⟨'=' :: t, column'⟩) := by
  obtain ⟨column', hread⟩ := readUntil_written isAssign false (s := key)
    (fun c hc => .inl (h.unassigned c hc)) (c := '=') rfl (by decide) t column
  refine ⟨column', ?_⟩
  obtain ⟨c, rest, hcons⟩ := List.exists_cons_of_ne_nil (written_ne_nil h.nonempty)
  have hhead {p : Char → Prop} (hs : ∀ c ∈ key.head?, p c) (hb : p '\\') : p c :=
    head_written hs hb c (by rw [hcons]; rfl)
  have hstart : c ∉ [';', '#', '['] := hhead h.start (by decide)
  have hassign : isAssign c = false :=
    hhead (fun c hc => h.unassigned c (List.mem_of_mem_head? hc)) (by decide)
  have hblank : isBlank c = false := hhead h.head (by decide)
  rw [hcons] at hread ⊢
  rw [List.cons_append] at hread ⊢
  rw [readItem_of_key hblank hstart hassign hread, h.map_readBack, h.trimmed]

/-- The item of a value, from its mark on. -/
theorem readItem_assign {r : Reading} (hr : r.pending ≠ []) (fuel : Nat) (s : List Char)
    (column : Nat) :
    readItem fuel r ('=' :: s) column =
      let start := skipWhile (fun b => isBlank b && !isLineBreak b) s (column + 1)
      match readValue fuel start.rest start.column true [] with
      | .ended value next => some (r.addValue value, next)
      | .broken _ => none := by
  have hempty : r.pending.isEmpty = false := by simpa using hr
  have hitem : readItem fuel r ('=' :: s) column =
      if r.pending.isEmpty then none
      else
        let start := skipWhile (fun b => isBlank b && !isLineBreak b) s (column + 1)
        match readValue fuel start.rest start.column true [] with
        | .ended value next => some (r.addValue value, next)
        | .broken _ => none := rfl
  rw [hitem, hempty]
  rfl

/-- The item of a value whose text is trimmed. -/
theorem readItem_value {s : List Char} (hs : trim s = s) {r : Reading} (hr : r.pending ≠ [])
    (fuel : Nat) (t : List Char) (column : Nat) :
    readItem fuel r ('=' :: written s ++ '\n' :: t) column =
      match readValue fuel (written s ++ '\n' :: t) (column + 1) true [] with
      | .ended value next => some (r.addValue value, next)
      | .broken _ => none := by
  have hskip : skipWhile (fun b => isBlank b && !isLineBreak b) (written s ++ '\n' :: t)
      (column + 1) = ⟨written s ++ '\n' :: t, column + 1⟩ := by
    refine skipWhile_of_head (fun c hc => ?_) _
    rw [List.head?_append] at hc
    rcases Option.or_eq_some_iff.mp hc with hc | ⟨-, hc⟩
    · have hblank := head_written (trim_eq_self_iff.mp hs).1 (by decide) c hc
      rw [hblank, Bool.false_and]
    · cases hc
      rfl
  rw [List.cons_append, readItem_assign hr, hskip]

/-! ## Reading on -/

/-- Reading goes on from the text `s` to `t`, and has then read `r'` instead of `r`. Blanks are to be
skipped before both. -/
def Reads (r : Reading) (s : List Char) (r' : Reading) (t : List Char) : Prop :=
  ∀ fuel column, s.length < fuel → ∃ fuel' column', t.length < fuel' ∧
    readItems fuel r (skipBlanks s column) = readItems fuel' r' (skipBlanks t column')

variable {r r' r'' : Reading} {s t u : List Char}

theorem Reads.refl (r : Reading) (s : List Char) : Reads r s r s :=
  fun fuel column h => ⟨fuel, column, h, rfl⟩

theorem Reads.trans (h : Reads r s r' t) (h' : Reads r' t r'' u) : Reads r s r'' u := by
  intro fuel column hfuel
  obtain ⟨fuel₁, column₁, hfuel₁, h₁⟩ := h fuel column hfuel
  obtain ⟨fuel₂, column₂, hfuel₂, h₂⟩ := h' fuel₁ column₁ hfuel₁
  exact ⟨fuel₂, column₂, hfuel₂, h₁.trans h₂⟩

/-- An empty line, or the end of one. -/
theorem reads_lineBreak (r : Reading) {c : Char} (hc : isLineBreak c = true)
    (h : ∀ c ∈ s.head?, isIndent c = false) : Reads r (c :: s) r s := by
  intro fuel column hfuel
  refine ⟨fuel, Cursor.columnAfter column c, Nat.lt_of_succ_lt hfuel, ?_⟩
  rw [skipBlanks_lineBreak hc h]

theorem reads_newline (r : Reading) (h : ∀ c ∈ s.head?, isIndent c = false) :
    Reads r ('\n' :: s) r s := reads_lineBreak r rfl h

/-- One item is read. -/
theorem readItems_item {c : Char} (hc : isBlank c = false) (fuel : Nat) (column : Nat) :
    readItems (fuel + 1) r (skipBlanks (c :: s) column) =
      match readItem (fuel + 1) r (c :: s) column with
      | some (r, next) => readItems fuel r (skipBlanks next.rest next.column)
      | none => none := by
  rw [skipBlanks_of_head (by rintro d hd; cases hd; exact hc)]
  rfl

theorem reads_of_item (hs : s ≠ []) (head : ∀ c ∈ s.head?, isBlank c = false)
    (length : t.length < s.length)
    (item : ∀ fuel column, ∃ column', readItem (fuel + 1) r s column =
      some (r', ⟨t, column'⟩)) : Reads r s r' t := by
  obtain ⟨c, s, rfl⟩ := List.exists_cons_of_ne_nil hs
  rintro (_ | fuel) column hfuel
  · cases hfuel
  · obtain ⟨column', hitem⟩ := item fuel column
    refine ⟨fuel, column', by omega, ?_⟩
    rw [readItems_item (head c rfl), hitem]

theorem reads_header {name : List Char} (h : IsHeader name) (r : Reading) (t : List Char) :
    Reads r ('[' :: written name ++ ']' :: t) (r.openSection name) t := by
  refine reads_of_item (by simp) (by rintro c hc; cases hc; rfl) ?_
    fun fuel column => readItem_header h r _ t column
  simp only [List.cons_append, List.length_cons, List.length_append]
  omega

theorem reads_key {key : List Char} (h : IsKey key) (r : Reading) (t : List Char) :
    Reads r (written key ++ '=' :: t) { r with pending := key } ('=' :: t) := by
  refine reads_of_item (by simp) (head_written_append h.head (by rintro c hc; cases hc; rfl)) ?_
    fun fuel column => readItem_key h r _ t column
  have hpos := List.length_pos_of_ne_nil (written_ne_nil h.nonempty)
  simp only [List.length_append, List.length_cons]
  omega

/-- A value that is read back. -/
theorem readValue_of_isValue (h : IsValue s) (fuel : Nat) (t : List Char) (column : Nat) :
    ∃ column', readValue (fuel + 1) (written s ++ '\n' :: t) column true [] =
      .ended s ⟨'\n' :: t, column'⟩ := by
  obtain ⟨column', hread⟩ := readValue_written_plain h.unquoted fuel t column true []
  refine ⟨column', ?_⟩
  rw [hread, h.map_readBack]
  simp only [↓reduceIte, h.trimmed, List.nil_append]

theorem reads_value (h : IsValue s) (hr : r.pending ≠ []) (t : List Char) :
    Reads r ('=' :: written s ++ '\n' :: t) (r.addValue s) ('\n' :: t) := by
  refine reads_of_item (by simp) (by rintro c hc; cases hc; rfl) ?_ fun fuel column => ?_
  · simp only [List.cons_append, List.length_cons, List.length_append]
    omega
  · obtain ⟨column', hread⟩ := readValue_of_isValue h fuel t (column + 1)
    exact ⟨column', by rw [readItem_value h.trimmed hr, hread]⟩

/-! ## Documents -/

/-- An entry has been read. -/
def Reading.addEntry (r : Reading) (e : String × String) : Reading :=
  { r with pending := e.1.toList }.addValue e.2.toList

/-- A section has been read. -/
def Reading.addSection (r : Reading) (s : Section) : Reading :=
  s.entries.foldl addEntry (r.openSection s.name.toList)

/-- A section as it is held while it is read: its last entry first. -/
def Section.reversed (s : Section) : Section := { s with entries := s.entries.reverse }

/-- What has been read when a document has. -/
def Reading.ofDocument (d : Document) : Reading where
  loose := d.loose.reverse
  sections := (d.sections.map Section.reversed).reverse

theorem Reading.document_ofDocument (d : Document) : (Reading.ofDocument d).document = d := by
  have hreversed : Section.reversed ∘ Section.reversed = id := by
    funext s
    simp [Section.reversed]
  have hmap (ss : List Section) : (ss.map fun s => { s with entries := s.entries.reverse }) =
      ss.map Section.reversed := rfl
  simp only [document, ofDocument, hmap, List.reverse_reverse, List.map_reverse, List.map_map,
    hreversed, List.map_id]

theorem Reading.foldl_addEntry_loose (es loose : List (String × String)) :
    es.foldl addEntry { loose } = { loose := es.reverse ++ loose } := by
  induction es generalizing loose with
  | nil => rfl
  | cons e es ih =>
    have hadd : addEntry { loose } e = { loose := e :: loose } := by
      simp [addEntry, addValue]
    rw [List.foldl_cons, hadd, ih, List.reverse_cons, List.append_assoc, List.singleton_append]

theorem Reading.foldl_addEntry (es : List (String × String)) (loose : List (String × String))
    (s : Section) (more : List Section) :
    es.foldl addEntry { loose, sections := s :: more } =
      { loose, sections := { s with entries := es.reverse ++ s.entries } :: more } := by
  induction es generalizing s with
  | nil => rfl
  | cons e es ih =>
    have hadd : addEntry { loose, sections := s :: more } e =
        { loose, sections := { s with entries := e :: s.entries } :: more } := by
      simp [addEntry, addValue]
    rw [List.foldl_cons, hadd, ih, List.reverse_cons, List.append_assoc, List.singleton_append]

theorem Reading.foldl_addSection (ss : List Section) (loose : List (String × String))
    (sections : List Section) :
    ss.foldl addSection { loose, sections } =
      { loose, sections := (ss.map Section.reversed).reverse ++ sections } := by
  induction ss generalizing sections with
  | nil => rfl
  | cons s ss ih =>
    have hadd : addSection { loose, sections } s =
        { loose, sections := s.reversed :: sections } := by
      rw [addSection, openSection, foldl_addEntry, Section.reversed, List.append_nil,
        String.ofList_toList]
    rw [List.foldl_cons, hadd, ih, List.map_cons, List.reverse_cons, List.append_assoc,
      List.singleton_append]

theorem Reading.foldl_document (d : Document) :
    d.sections.foldl addSection (d.loose.foldl addEntry {}) = ofDocument d := by
  rw [foldl_addEntry_loose, foldl_addSection, ofDocument, List.append_nil, List.append_nil]

@[simp] theorem toList_writeText (s : String) : (writeText s).toList = written s.toList :=
  String.toList_ofList

theorem toList_writeEntries_cons (e : String × String) (es : List (String × String)) :
    (writeEntries (e :: es)).toList =
      written e.1.toList ++ '=' :: written e.2.toList ++ '\n' :: (writeEntries es).toList := by
  simp [writeEntries]

theorem toList_write (s : Section) :
    s.write.toList = '[' :: written s.name.toList ++ ']' :: '\n' :: (writeEntries s.entries).toList := by
  simp [Section.write]

/-- An entry whose key is read back starts with no blank. -/
theorem head_writeEntries_cons {e : String × String} (h : IsKey e.1.toList)
    (es : List (String × String)) (t : List Char) :
    ∀ c ∈ ((writeEntries (e :: es)).toList ++ t).head?, isBlank c = false := by
  simp only [toList_writeEntries_cons, List.append_assoc]
  exact head_written_append h.head (by rintro c hc; cases hc; rfl)

theorem head_writeEntries {es : List (String × String)} (h : ∀ e ∈ es, IsEntry e)
    {p : Char → Prop} (hp : ∀ c, isBlank c = false → p c) (ht : ∀ c ∈ t.head?, p c) :
    ∀ c ∈ ((writeEntries es).toList ++ t).head?, p c := by
  cases es with
  | nil => simpa [writeEntries] using ht
  | cons e es => exact fun c hc => hp c (head_writeEntries_cons (h e List.mem_cons_self).1 es t c hc)

theorem reads_entries {es : List (String × String)} (h : ∀ e ∈ es, IsEntry e)
    (ht : ∀ c ∈ t.head?, isIndent c = false) (r : Reading) :
    Reads r ((writeEntries es).toList ++ t) (es.foldl Reading.addEntry r) t := by
  induction es generalizing r with
  | nil => exact .refl r t
  | cons e es ih =>
    obtain ⟨hkey, hvalue⟩ := h e List.mem_cons_self
    have hes : ∀ e ∈ es, IsEntry e := fun e he => h e (List.mem_cons_of_mem _ he)
    have htext : (writeEntries (e :: es)).toList ++ t = written e.1.toList ++ '=' ::
        (written e.2.toList ++ '\n' :: ((writeEntries es).toList ++ t)) := by
      rw [toList_writeEntries_cons]
      simp
    rw [htext]
    refine (reads_key hkey r _).trans ?_
    refine (reads_value hvalue (r := { r with pending := e.1.toList }) hkey.nonempty _).trans ?_
    exact (reads_newline _ (head_writeEntries hes (fun _ => isIndent_of_isBlank) ht)).trans (ih hes _)

theorem reads_section {s : Section} (h : s.IsPlain) (ht : ∀ c ∈ t.head?, isIndent c = false)
    (r : Reading) : Reads r (s.write.toList ++ t) (r.addSection s) t := by
  have htext : s.write.toList ++ t = '[' :: written s.name.toList ++ ']' ::
      '\n' :: ((writeEntries s.entries).toList ++ t) := by
    rw [toList_write]
    simp
  rw [htext]
  refine (reads_header h.header r _).trans ?_
  refine (reads_newline _ (head_writeEntries h.entries (fun _ => isIndent_of_isBlank) ht)).trans ?_
  exact reads_entries h.entries ht _

theorem head_sections (ss : List Section) {p : Char → Prop} (hp : ∀ c, isBlank c = false → p c)
    (ht : ∀ c ∈ t.head?, p c) :
    ∀ c ∈ (("\n".intercalate (ss.map Section.write)).toList ++ t).head?, p c := by
  cases ss with
  | nil => simpa [String.intercalate_nil] using ht
  | cons s ss =>
    have hbracket : s.write = "[" ++ (writeText s.name ++ ("]\n" ++ writeEntries s.entries)) := by
      simp only [Section.write, String.append_assoc]
    rw [List.map_cons, hbracket, String.intercalate_cons_append, String.toList_append]
    rintro c hc
    cases hc
    exact hp _ rfl

theorem reads_sections {ss : List Section} (h : ∀ s ∈ ss, s.IsPlain)
    (ht : ∀ c ∈ t.head?, isIndent c = false) (r : Reading) :
    Reads r (("\n".intercalate (ss.map Section.write)).toList ++ t) (ss.foldl Reading.addSection r)
      t := by
  induction ss generalizing r with
  | nil => simpa [String.intercalate_nil] using Reads.refl r t
  | cons s ss ih =>
    have hs := h s List.mem_cons_self
    have hss : ∀ s ∈ ss, s.IsPlain := fun s hs => h s (List.mem_cons_of_mem _ hs)
    cases ss with
    | nil =>
      rw [List.map_singleton, String.intercalate_singleton]
      exact reads_section hs ht r
    | cons s' ss =>
      have htext : ("\n".intercalate ((s :: s' :: ss).map Section.write)).toList ++ t =
          s.write.toList ++
            '\n' :: (("\n".intercalate ((s' :: ss).map Section.write)).toList ++ t) := by
        simp only [List.map_cons, String.intercalate_cons_cons, String.toList_append,
          List.append_assoc]
        rfl
      rw [htext]
      refine (reads_section hs (by rintro c hc; cases hc; rfl) r).trans ?_
      exact (reads_newline _ (head_sections _ (fun _ => isIndent_of_isBlank) ht)).trans (ih hss _)

/-- **Reading goes on behind a written document.** -/
theorem reads_document {d : Document} (h : d.IsPlain) (ht : ∀ c ∈ t.head?, isIndent c = false) :
    Reads {} (d.write.toList ++ t) (.ofDocument d) t := by
  rw [← Reading.foldl_document]
  cases hloose : d.loose with
  | nil =>
    have htext : d.write = "\n".intercalate (d.sections.map Section.write) := by
      simp [Document.write, hloose]
    rw [htext]
    exact reads_sections h.sections ht {}
  | cons e es =>
    rw [← hloose]
    have hempty : d.loose.isEmpty = false := by rw [hloose]; rfl
    cases hsections : d.sections with
    | nil =>
      have htext : d.write = writeEntries d.loose := by
        simp [Document.write, hempty, hsections]
      rw [htext]
      exact reads_entries h.loose ht {}
    | cons s ss =>
      have htext : d.write.toList ++ t = (writeEntries d.loose).toList ++
          '\n' :: (("\n".intercalate ((s :: ss).map Section.write)).toList ++ t) := by
        simp only [Document.write, hempty, hsections, Bool.false_eq_true, ↓reduceIte,
          List.singleton_append, List.map_cons, String.intercalate_cons_cons, String.toList_append,
          List.append_assoc]
        rfl
      rw [htext]
      refine (reads_entries h.loose (by rintro c hc; cases hc; rfl) {}).trans ?_
      refine (reads_newline _ (head_sections _ (fun _ => isIndent_of_isBlank) ht)).trans ?_
      exact reads_sections (hsections ▸ h.sections) ht _

theorem head_document {d : Document} (h : d.IsPlain) (ht : ∀ c ∈ t.head?, isBlank c = false) :
    ∀ c ∈ (d.write.toList ++ t).head?, isBlank c = false := by
  cases hloose : d.loose with
  | nil =>
    have htext : d.write = "\n".intercalate (d.sections.map Section.write) := by
      simp [Document.write, hloose]
    rw [htext]
    exact head_sections _ (fun _ => id) ht
  | cons e es =>
    -- The text starts with the first key.
    have hempty : d.loose.isEmpty = false := by rw [hloose]; rfl
    obtain ⟨more, hmore⟩ : ∃ more, d.write = writeEntries d.loose ++ more := by
      cases hsections : d.sections with
      | nil => exact ⟨"", by simp [Document.write, hempty, hsections]⟩
      | cons s ss =>
        refine ⟨"\n" ++ "\n".intercalate ((s :: ss).map Section.write), ?_⟩
        simp only [Document.write, hempty, hsections, Bool.false_eq_true, ↓reduceIte,
          List.singleton_append, List.map_cons, String.intercalate_cons_cons, String.append_assoc]
    have hkey := (h.loose e (by rw [hloose]; exact List.mem_cons_self)).1
    rw [hmore, hloose, String.toList_append, List.append_assoc]
    exact head_writeEntries_cons hkey es _

/-- The text of a document with more behind it is read up to there. -/
theorem read?_write_append {d : Document} (h : d.IsPlain) {t : String}
    (ht : ∀ c ∈ t.toList.head?, isBlank c = false) :
    ∃ fuel column, t.toList.length < fuel ∧ Document.read? (d.write ++ t) =
      (readItems fuel (.ofDocument d) (skipBlanks t.toList column)).map (·.document) := by
  have hd := head_document h ht
  obtain ⟨fuel, column, hfuel, hread⟩ := reads_document h
    (fun c hc => isIndent_of_isBlank (ht c hc)) ((d.write.toList ++ t.toList).length + 1) 0
    (Nat.lt_succ_self _)
  refine ⟨fuel, column, hfuel, ?_⟩
  rw [← hread, Document.read?, String.toList_append, skipWhile_of_head hd, skipBlanks_of_head hd]

/-- **A written document is read back.** -/
theorem Document.read?_write {d : Document} (h : d.IsPlain) : Document.read? d.write = some d := by
  obtain ⟨fuel, column, hfuel, hread⟩ := read?_write_append h (t := "") (by simp)
  obtain ⟨fuel, rfl⟩ := Nat.exists_eq_succ_of_ne_zero (Nat.ne_of_gt hfuel)
  rw [String.append_empty] at hread
  rw [hread]
  exact congrArg some (Reading.document_ofDocument d)

/-! ## Any value -/

/-- A value that has been read, and is that of the text once it is trimmed, is one that is read
back. -/
theorem isValue_of_readValue (hs : trim s = s) {fuel column : Nat} {value : List Char}
    {next : Cursor}
    (h : readValue fuel (written s ++ '\n' :: t) column true [] = .ended value next)
    (hlength : (∃ c ∈ s.head?, isQuote c = true) → value.length < s.length)
    (hvalue : trim value = s) : IsValue s := by
  have hle : s.length ≤ value.length := by
    have := (infix_trim value).length_le
    rwa [hvalue] at this
  have hunquoted : ∀ c ∈ s.head?, isQuote c = false := fun c hc =>
    Bool.eq_false_iff.mpr fun hq => Nat.not_lt_of_le hle (hlength ⟨c, hc, hq⟩)
  cases fuel with
  | zero => cases h
  | succ fuel =>
    obtain ⟨column', hread⟩ := readValue_written_plain hunquoted fuel t column true []
    rw [hread] at h
    cases h
    have hback : trim (s.map readBack) = s := by
      simpa only [List.nil_append, ↓reduceIte, trim_trim] using hvalue
    have hsame : trim (s.map readBack) = s.map readBack :=
      trim_eq_self_of_length_le (by rw [hback, List.length_map])
    obtain ⟨noTab, noFeed⟩ := map_readBack_eq_self.mp (hsame.symm.trans hback)
    exact ⟨⟨hs, noTab, noFeed⟩, hunquoted⟩

/-- **Any value is read, or nothing is.** It takes up its line, and is then one that is read back if
it comes back at all; or it runs into the lines that follow, up to the end of one of them. -/
theorem readItems_value (hs : trim s = s) (hr : r.pending ≠ []) {fuel column : Nat}
    (hfuel : ('=' :: written s ++ '\n' :: t).length < fuel)
    (h : readItems fuel r (skipBlanks ('=' :: written s ++ '\n' :: t) column) = some r') :
    ∃ (value : List Char) (next : Cursor) (fuel' : Nat),
      readItems fuel' (r.addValue value) (skipBlanks next.rest next.column) = some r' ∧
      (next.rest = '\n' :: t ∧ ('\n' :: t).length < fuel' ∧ (trim value = s → IsValue s) ∨
        next.rest <:+ t ∧ t ≠ [] ∧
          (next.rest = [] ∨ ∃ c more, next.rest = c :: more ∧ isLineBreak c = true)) := by
  cases fuel with
  | zero => cases hfuel
  | succ fuel =>
    have hitem := readItems_item (r := r) (c := '=') rfl fuel column (s := written s ++ '\n' :: t)
    rw [List.cons_append, hitem, ← List.cons_append, readItem_value hs hr] at h
    cases hread : readValue (fuel + 1) (written s ++ '\n' :: t) (column + 1) true [] with
    | broken next => rw [hread] at h; cases h
    | ended value next =>
      rw [hread] at h
      refine ⟨value, next, fuel, h, ?_⟩
      rcases readValue_written hread with ⟨hrest, -, hlength⟩ | ⟨hsuffix, ht⟩
      · refine .inl ⟨hrest, ?_, isValue_of_readValue hs hread (by simpa using hlength)⟩
        simp only [List.cons_append, List.length_cons, List.length_append] at hfuel ⊢
        omega
      · exact .inr ⟨hsuffix, ht, (readValue_ended hread).2⟩

/-- **So is any entry whose key is read back.** -/
theorem readItems_entry {key : List Char} (hkey : IsKey key) (hs : trim s = s) {fuel column : Nat}
    (hfuel : (written key ++ '=' :: written s ++ '\n' :: t).length < fuel)
    (h : readItems fuel r (skipBlanks (written key ++ '=' :: written s ++ '\n' :: t) column) =
      some r') :
    ∃ (value : List Char) (next : Cursor) (fuel' : Nat),
      readItems fuel' ({ r with pending := key }.addValue value)
        (skipBlanks next.rest next.column) = some r' ∧
      (next.rest = '\n' :: t ∧ ('\n' :: t).length < fuel' ∧ (trim value = s → IsValue s) ∨
        next.rest <:+ t ∧ t ≠ [] ∧
          (next.rest = [] ∨ ∃ c more, next.rest = c :: more ∧ isLineBreak c = true)) := by
  rw [List.append_assoc, List.cons_append] at hfuel h
  obtain ⟨fuel', column', hfuel', hread⟩ := reads_key hkey r (written s ++ '\n' :: t) fuel column hfuel
  rw [hread] at h
  exact readItems_value (r := { r with pending := key }) hs hkey.nonempty hfuel' h

/-- What is left of a line that is no longer broken starts at its end. -/
theorem eq_nil_or_newline_of_suffix (hs : ∀ c ∈ s, isLineBreak c = false) (h : u <:+ s ++ ['\n'])
    (hu : u = [] ∨ ∃ c more, u = c :: more ∧ isLineBreak c = true) : u = [] ∨ u = ['\n'] := by
  induction s with
  | nil =>
    rcases List.suffix_cons_iff.mp h with h | h
    · exact .inr h
    · exact .inl (List.suffix_nil.mp h)
  | cons d s ih =>
    rcases List.suffix_cons_iff.mp h with rfl | h
    · rcases hu with hu | ⟨c, more, hcons, hc⟩
      · cases hu
      · cases hcons
        rw [hs _ List.mem_cons_self] at hc
        cases hc
    · exact ih (fun c hc => hs c (List.mem_cons_of_mem _ hc)) h

/-- What is left of an entry, at the end of a line. -/
theorem eq_nil_or_newline_of_entry {e : String × String} (h : u <:+ (writeEntries [e]).toList)
    (hu : u = [] ∨ ∃ c more, u = c :: more ∧ isLineBreak c = true) : u = [] ∨ u = ['\n'] := by
  rw [toList_writeEntries_cons] at h
  refine eq_nil_or_newline_of_suffix (fun c hc => ?_) h hu
  rcases List.mem_append.mp hc with hc | hc
  · exact isLineBreak_of_mem_written hc
  · rcases List.mem_cons.mp hc with rfl | hc
    · rfl
    · exact isLineBreak_of_mem_written hc

/-- Nothing more is read at the end of the last line. -/
theorem eq_of_readItems_end (hs : s = [] ∨ s = ['\n']) {fuel column : Nat}
    (h : readItems fuel r (skipBlanks s column) = some r') : r' = r := by
  cases fuel with
  | zero => cases h
  | succ fuel => rcases hs with rfl | rfl <;> exact (Option.some.inj h).symm

/-! ## What has been read stays -/

/-- The first value of a key in the first section of a name. -/
def Document.value? (d : Document) (name key : String) : Option String :=
  (d.section? name).bind (·.value? key)

/-- An item adds to what has been read. -/
theorem readItem_cases {fuel column : Nat} {next : Cursor}
    (h : readItem fuel r s column = some (r', next)) :
    r' = r ∨ (∃ name, r' = r.openSection name) ∨ (∃ key, r' = { r with pending := key }) ∨
      ∃ value, r' = r.addValue value := by
  have opens {rest : List Char} {column : Nat} (h : readSection r rest column = some (r', next)) :
      ∃ name, r' = r.openSection name := by
    unfold readSection at h
    split at h <;> cases h <;> exact ⟨_, rfl⟩
  unfold readItem at h
  split at h
  · cases h
    exact .inl rfl
  · split at h
    · split at h <;> cases h
      exact .inl rfl
    · split at h
      · exact .inr (.inl (opens h))
      · split at h
        · split at h
          · cases h
          · simp only at h
            split at h <;> cases h
            exact .inr (.inr (.inr ⟨_, rfl⟩))
        · split at h
          · split at h
            · cases h
              exact .inl rfl
            · split at h
              · exact .inr (.inl (opens h))
              · split at h
                · cases h
                  exact .inl rfl
                · split at h <;> cases h
                  · exact .inr (.inr (.inl ⟨_, rfl⟩))
                  · exact .inl rfl
          · split at h
            · cases h
              exact .inl rfl
            · split at h <;> cases h
              exact .inr (.inr (.inl ⟨_, rfl⟩))

theorem value?_eq_some {d : Document} {name key value : String} :
    d.value? name key = some value ↔ ∃ s, d.section? name = some s ∧ s.value? key = some value :=
  Option.bind_eq_some_iff

theorem value?_openSection {name key value : String} (new : List Char)
    (h : r.document.value? name key = some value) :
    (r.openSection new).document.value? name key = some value := by
  obtain ⟨s, hs, hvalue⟩ := value?_eq_some.mp h
  have hdocument : (r.openSection new).document.sections =
      r.document.sections ++ [⟨String.ofList new, []⟩] := by
    simp [Reading.document, Reading.openSection]
  refine value?_eq_some.mpr ⟨s, ?_, hvalue⟩
  rw [Document.section?, hdocument, List.find?_append]
  exact Option.or_eq_some_iff.mpr (.inl hs)

theorem value?_addValue {name key value : String} (new : List Char)
    (h : r.document.value? name key = some value) :
    (r.addValue new).document.value? name key = some value := by
  obtain ⟨s, hs, hvalue⟩ := value?_eq_some.mp h
  cases hsections : r.sections with
  | nil => simp [Document.section?, Reading.document, hsections] at hs
  | cons last more =>
    -- The entry goes to the end of the section opened last.
    obtain ⟨front, entry, hbefore, hafter⟩ : ∃ front entry,
        r.document.sections = front ++ [{ last with entries := last.entries.reverse }] ∧
        (r.addValue new).document.sections =
          front ++ [{ last with entries := last.entries.reverse ++ [entry] }] := by
      simp [Reading.document, Reading.addValue, hsections]
    rw [Document.section?, hbefore, List.find?_append] at hs
    refine value?_eq_some.mpr ?_
    rw [Document.section?, hafter, List.find?_append]
    rcases Option.or_eq_some_iff.mp hs with hs | ⟨hnone, hs⟩
    · exact ⟨s, Option.or_eq_some_iff.mpr (.inl hs), hvalue⟩
    · rw [List.find?_singleton] at hs
      split at hs
      · rename_i hname
        cases hs
        obtain ⟨e, he, rfl⟩ := Option.map_eq_some_iff.mp hvalue
        refine ⟨{ last with entries := last.entries.reverse ++ [entry] }, ?_, ?_⟩
        · rw [hnone, List.find?_singleton, if_pos hname]
          rfl
        · rw [Section.value?, List.find?_append, he]
          rfl
      · cases hs

/-- **What has been read of a value is not read again.** -/
theorem value?_readItems {name key value : String} {fuel : Nat} {cursor : Cursor}
    (h : readItems fuel r cursor = some r') (hr : r.document.value? name key = some value) :
    r'.document.value? name key = some value := by
  induction fuel generalizing r cursor with
  | zero => cases h
  | succ fuel ih =>
    rw [readItems] at h
    split at h
    · cases h
      exact hr
    · split at h
      · rename_i r₁ next hitem
        refine ih h ?_
        rcases readItem_cases hitem with rfl | ⟨new, rfl⟩ | ⟨new, rfl⟩ | ⟨new, rfl⟩
        · exact hr
        · exact value?_openSection new hr
        · exact hr
        · exact value?_addValue new hr
      · cases h

end LiveTrip.Ini
