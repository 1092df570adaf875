import LiveTrip.Proofs.Text.Blank
import LiveTrip.Text.Ini

/-!
# Written texts and how they are read back

The writer escapes what the grammar of INI would stumble over, and the reader undoes escapes, but
the two do not know the same ones.

* `written`, `readBack`: a text as it is written, and a character as it comes back.
* `readUntil_written`: a stretch of written text is read back up to its end mark.
* `readUntil_ended`, `readValue_ended`: where a stretch and a value end, whatever the text.
* `readValue_written_plain`: the value of a written text that starts with no quotation mark.
* `readValue_written`: that of any written text: it takes up its line, and is shorter than the text if
  that starts with a quotation mark; or it runs into the lines that follow.
-/

namespace LiveTrip.Ini

open Text

/-- A text as it is written. -/
def written (s : List Char) : List Char := s.flatMap escape

/-- A character as it is read back. The reader has no escapes for the vertical tab and the form
feed, and takes the letters of those. -/
def readBack (c : Char) : Char := if c = '\x0b' then 'v' else if c = '\x0c' then 'f' else c

/-! ## Characters -/

@[simp] theorem written_nil : written [] = [] := rfl

@[simp] theorem written_cons (c : Char) (s : List Char) : written (c :: s) = escape c ++ written s :=
  rfl

@[simp] theorem written_append (s s' : List Char) : written (s ++ s') = written s ++ written s' :=
  List.flatMap_append

theorem unicodeOf?_hex4 : ∀ n < 128, unicodeOf? (hex4 n) = some (Char.ofNat n) := by
  decide +kernel

theorem isLineBreak_of_all {s : List Char} (h : s.all (!isLineBreak ·) = true) {c : Char}
    (hc : c ∈ s) : isLineBreak c = false := by
  simpa using List.all_eq_true.mp h c hc

theorem all_isLineBreak_hex4 : ∀ n < 128, (hex4 n).all (!isLineBreak ·) = true := by
  decide +kernel

/-- A character is written as it is, or as an escape. -/
theorem escape_cases (c : Char) :
    c ≠ '\\' ∧ 0x20 ≤ c.toNat ∧ escape c = [c] ∨ ∃ rest, escape c = '\\' :: rest := by
  unfold escape
  split
  any_goals exact .inr ⟨_, rfl⟩
  split
  · exact .inr ⟨_, rfl⟩
  · exact .inl ⟨‹_›, by omega, rfl⟩

/-- What stops at a control character stops at none that is written as it is. -/
theorem escape_ne_of_lt {c : Char} (h : c.toNat < 0x20) : escape c ≠ [c] := by
  intro hc
  rcases escape_cases c with ⟨-, hlow, -⟩ | ⟨rest, hrest⟩
  · omega
  · rw [hrest] at hc
    cases hc
    exact absurd h (by decide)

/-- No line of a written text ends. -/
theorem isLineBreak_of_mem_escape {c d : Char} (h : d ∈ escape c) : isLineBreak d = false := by
  unfold escape at h
  split at h
  any_goals (refine isLineBreak_of_all ?_ h; decide)
  rename_i hnl _ hcr
  split at h
  · rename_i hlow
    rcases List.mem_cons.mp h with rfl | h
    · rfl
    · rcases List.mem_cons.mp h with rfl | h
      · rfl
      · exact isLineBreak_of_all (all_isLineBreak_hex4 c.toNat (by omega)) h
  · cases List.mem_singleton.mp h
    simp only [isLineBreak, Bool.or_eq_false_iff, decide_eq_false_iff_not]
    exact ⟨hnl, hcr⟩

theorem isLineBreak_of_mem_written {s : List Char} {c : Char} (h : c ∈ written s) :
    isLineBreak c = false := by
  obtain ⟨d, -, hc⟩ := List.mem_flatMap.mp h
  exact isLineBreak_of_mem_escape hc

theorem readBack_eq_self {c : Char} : readBack c = c ↔ '\x0b' ≠ c ∧ '\x0c' ≠ c := by
  unfold readBack
  split
  · rename_i h; subst h; simp
  · split
    · rename_i h; subst h; simp
    · rename_i hv hf
      exact iff_of_true rfl ⟨Ne.symm hv, Ne.symm hf⟩

theorem readBack_of_le {c : Char} (h : 0x20 ≤ c.toNat) : readBack c = c := by
  refine readBack_eq_self.mpr ⟨?_, ?_⟩ <;> (rintro rfl; exact absurd h (by decide))

/-- All of a text comes back as it is if it has none of the two characters. -/
theorem map_readBack_eq_self {s : List Char} :
    s.map readBack = s ↔ '\x0b' ∉ s ∧ '\x0c' ∉ s := by
  induction s with
  | nil => simp
  | cons c s ih =>
    rw [List.map_cons, List.cons.injEq, readBack_eq_self, List.mem_cons, List.mem_cons, not_or,
      not_or]
    exact (and_congr_right fun _ => ih).trans and_and_and_comm

/-! ## Stretches -/

section

variable {stop : Char → Bool} {atEnd : Bool}

theorem readUntil_cons {c : Char} (hb : c ≠ '\\') (t : List Char) (column : Nat) (acc : List Char) :
    readUntil stop atEnd (c :: t) column acc =
      if stop c then .ended acc.reverse ⟨c :: t, column⟩
      else readUntil stop atEnd t (Cursor.columnAfter column c) (c :: acc) := by
  rw [readUntil]
  exact hb

theorem readUntil_hex4 {c : Char} (hc : c.toNat < 128) (t : List Char) (column : Nat)
    (acc : List Char) :
    readUntil stop atEnd ('\\' :: 'x' :: hex4 c.toNat ++ t) column acc =
      readUntil stop atEnd t (column + 6) (c :: acc) := by
  have hu := unicodeOf?_hex4 c.toNat hc
  rw [Char.ofNat_toNat] at hu
  simp only [hex4, List.map_cons, List.map_nil] at hu
  simp only [hex4, List.map_cons, List.map_nil, List.cons_append, List.nil_append, readUntil, hu]

/-- A written character is read back, unless reading stops at it. -/
theorem readUntil_escape {c : Char} (h : stop c = false ∨ escape c ≠ [c]) (t : List Char)
    (column : Nat) (acc : List Char) :
    ∃ column', readUntil stop atEnd (escape c ++ t) column acc =
      readUntil stop atEnd t column' (readBack c :: acc) := by
  rcases escape_cases c with ⟨hb, hlow, hc⟩ | ⟨rest, hrest⟩
  · have hgo : stop c = false := h.resolve_right (· hc)
    refine ⟨Cursor.columnAfter column c, ?_⟩
    rw [hc, List.singleton_append, readUntil_cons hb, hgo, readBack_of_le hlow]
    rfl
  · unfold escape at hrest ⊢
    split at hrest
    any_goals exact ⟨_, rfl⟩
    rename_i hff hvt _ _ _
    split at hrest
    · rename_i hlow
      have hback : readBack c = c := readBack_eq_self.mpr ⟨Ne.symm hvt, Ne.symm hff⟩
      refine ⟨column + 6, ?_⟩
      simp only [hlow, ↓reduceIte, hback]
      exact readUntil_hex4 (by omega) t column acc
    · cases hrest; contradiction

/-- A written text is read back, unless reading stops in it. -/
theorem readUntil_written_append (stop : Char → Bool) (atEnd : Bool) {s : List Char}
    (h : ∀ c ∈ s, stop c = false ∨ escape c ≠ [c]) (t : List Char) (column : Nat)
    (acc : List Char) :
    ∃ column', readUntil stop atEnd (written s ++ t) column acc =
      readUntil stop atEnd t column' ((s.map readBack).reverse ++ acc) := by
  induction s generalizing column acc with
  | nil => exact ⟨column, rfl⟩
  | cons c s ih =>
    obtain ⟨column₁, h₁⟩ := readUntil_escape (h c List.mem_cons_self) (written s ++ t) column acc
    obtain ⟨column₂, h₂⟩ := ih (fun d hd => h d (List.mem_cons_of_mem _ hd)) column₁
      (readBack c :: acc)
    refine ⟨column₂, ?_⟩
    rw [written_cons, List.append_assoc, h₁, h₂, List.map_cons, List.reverse_cons,
      List.append_assoc, List.singleton_append]

/-- **A stretch of written text is read back up to its end mark.** -/
theorem readUntil_written (stop : Char → Bool) (atEnd : Bool) {s : List Char}
    (h : ∀ c ∈ s, stop c = false ∨ escape c ≠ [c]) {c : Char} (hc : stop c = true) (hb : c ≠ '\\')
    (t : List Char) (column : Nat) :
    ∃ column', readUntil stop atEnd (written s ++ c :: t) column [] =
      .ended (s.map readBack) ⟨c :: t, column'⟩ := by
  obtain ⟨column', hs⟩ := readUntil_written_append stop atEnd h (c :: t) column []
  refine ⟨column', ?_⟩
  rw [hs, readUntil_cons hb, hc, List.append_nil]
  simp only [↓reduceIte, List.reverse_reverse]

/-- A stretch ends at its end mark, or at the end of the text where it may. -/
theorem readUntil_ended {s : List Char} {column : Nat} {acc text : List Char} {next : Cursor}
    (h : readUntil stop atEnd s column acc = .ended text next) :
    next.rest <:+ s ∧ (atEnd = true ∧ next.rest = [] ∨
      ∃ c more, next.rest = c :: more ∧ stop c = true) := by
  fun_induction readUntil stop atEnd s column acc with
  | case1 column acc hend =>
    cases h
    exact ⟨List.suffix_refl _, .inl ⟨hend, rfl⟩⟩
  | case2 => cases h
  | case3 column acc ih => exact (ih h).imp_left (·.trans ⟨['\\'], rfl⟩)
  | case4 column acc a b c d more u hu ih =>
    exact (ih h).imp_left (·.trans ⟨['\\', 'x', a, b, c, d], rfl⟩)
  | case5 => cases h
  | case6 => cases h
  | case7 column acc c more _ _ ih => exact (ih h).imp_left (·.trans ⟨['\\', c], rfl⟩)
  | case8 c rest column acc _ hstop =>
    cases h
    exact ⟨List.suffix_refl _, .inr ⟨c, rest, rfl, hstop⟩⟩
  | case9 c rest column acc _ _ ih => exact (ih h).imp_left (·.trans (List.suffix_cons c rest))

end

/-! ## Values -/

/-- Quotation marks. -/
def isQuote (c : Char) : Bool := c = '"' || c = '\''

theorem readValue_quote {q : Char} (hq : isQuote q = true) (fuel : Nat) (s : List Char)
    (column : Nat) (first : Bool) (acc : List Char) :
    readValue (fuel + 1) (q :: s) column first acc =
      match readUntil (· = q) false s (column + 1) [] with
      | .ended text ⟨_ :: more, column⟩ => readValue fuel more (column + 1) false (acc ++ text)
      | .ended text ⟨[], column⟩ => .ended (acc ++ text) ⟨[], column⟩
      | .broken next => .broken next := by
  have hq : q = '"' ∨ q = '\'' := by simpa [isQuote] using hq
  exact if_pos hq

theorem readValue_plain {c : Char} (hc : isQuote c = false) (fuel : Nat) (s : List Char)
    (column : Nat) (first : Bool) (acc : List Char) :
    readValue (fuel + 1) (c :: s) column first acc =
      match readUntil isLineBreak true (c :: s) column [] with
      | .ended text next => .ended (acc ++ (if first then trim text else trimEnd text)) next
      | .broken next => .broken next := by
  have hc : ¬ (c = '"' ∨ c = '\'') := by simpa [isQuote] using hc
  exact if_neg hc

/-- A value ends at the end of a line, or of the text. -/
theorem readValue_ended {fuel : Nat} {s : List Char} {column : Nat} {first : Bool}
    {acc value : List Char} {next : Cursor}
    (h : readValue fuel s column first acc = .ended value next) :
    next.rest <:+ s ∧ (next.rest = [] ∨ ∃ c more, next.rest = c :: more ∧ isLineBreak c = true) := by
  induction fuel generalizing s column first acc with
  | zero => cases h
  | succ fuel ih =>
    cases s with
    | nil =>
      cases h
      exact ⟨List.suffix_refl _, .inl rfl⟩
    | cons c s =>
      cases hc : isQuote c with
      | true =>
        rw [readValue_quote hc] at h
        split at h
        · rename_i text d more column' hread
          obtain ⟨hsuffix, -⟩ := readUntil_ended hread
          have hmore : more <:+ c :: s :=
            (List.suffix_cons d more).trans (hsuffix.trans (List.suffix_cons c s))
          exact (ih h).imp_left (·.trans hmore)
        · cases h
          exact ⟨List.nil_suffix, .inl rfl⟩
        · cases h
      | false =>
        rw [readValue_plain hc] at h
        split at h
        · rename_i text next' hread
          cases h
          exact (readUntil_ended hread).imp_right (·.imp_left And.right)
        · cases h

/-- No line of a written text stops a stretch. -/
theorem not_isLineBreak_or_escape (c : Char) : isLineBreak c = false ∨ escape c ≠ [c] := by
  cases hc : isLineBreak c with
  | false => exact .inl rfl
  | true =>
    have hc : c = '\n' ∨ c = '\r' := by simpa [isLineBreak] using hc
    rcases hc with rfl | rfl <;> exact .inr (escape_ne_of_lt (by decide))

/-- What follows the last quoted part of a value takes up the rest of the line. -/
theorem readValue_written_plain {s : List Char} (hs : ∀ c ∈ s.head?, isQuote c = false) (fuel : Nat)
    (t : List Char) (column : Nat) (first : Bool) (acc : List Char) :
    ∃ column', readValue (fuel + 1) (written s ++ '\n' :: t) column first acc =
      .ended (acc ++ (if first then trim (s.map readBack) else trimEnd (s.map readBack)))
        ⟨'\n' :: t, column'⟩ := by
  obtain ⟨column', hread⟩ := readUntil_written isLineBreak true (s := s)
    (fun c _ => not_isLineBreak_or_escape c) (c := '\n') rfl (by decide) t column
  refine ⟨column', ?_⟩
  -- Neither the first character of the text nor the backslash before it is a quotation mark.
  obtain ⟨c, rest, hcons, hc⟩ : ∃ c rest, written s ++ '\n' :: t = c :: rest ∧ isQuote c = false := by
    cases s with
    | nil => exact ⟨_, _, rfl, rfl⟩
    | cons c s =>
      rcases escape_cases c with ⟨-, -, hc⟩ | ⟨rest, hc⟩
      · exact ⟨c, _, by rw [written_cons, hc]; rfl, hs c rfl⟩
      · exact ⟨'\\', _, by rw [written_cons, hc]; rfl, rfl⟩
  rw [hcons] at hread ⊢
  rw [readValue_plain hc, hread]

theorem escape_of_isQuote {c : Char} (h : isQuote c = true) : escape c = [c] := by
  have h : c = '"' ∨ c = '\'' := by simpa [isQuote] using h
  rcases h with rfl | rfl <;> rfl

/-- A quoted part that is not over at the end of the line goes on in the lines that follow. -/
theorem readValue_overrun {q : Char} (hq : isQuote q = true) {fuel column : Nat} {t : List Char}
    {acc text value : List Char} {next : Cursor}
    (h : (match readUntil (· = q) false ('\n' :: t) column text with
      | .ended text ⟨_ :: more, column⟩ => readValue fuel more (column + 1) false (acc ++ text)
      | .ended text ⟨[], column⟩ => .ended (acc ++ text) ⟨[], column⟩
      | .broken next => .broken next) = .ended value next) : next.rest <:+ t ∧ t ≠ [] := by
  split at h
  · rename_i text c more column' hread
    obtain ⟨hsuffix, ⟨hend, -⟩ | ⟨d, rest, hcons, hstop⟩⟩ := readUntil_ended hread
    · cases hend
    · cases hcons
      obtain rfl : c = q := of_decide_eq_true hstop
      have hin : c :: more <:+ t := by
        rcases List.suffix_cons_iff.mp hsuffix with h | h
        · cases h
          cases hq
        · exact h
      refine ⟨(readValue_ended h).1.trans ((List.suffix_cons c more).trans hin), ?_⟩
      rintro rfl
      cases List.suffix_nil.mp hin
  · rename_i text column' hread
    obtain ⟨-, ⟨hend, -⟩ | ⟨d, rest, hcons, -⟩⟩ := readUntil_ended hread
    · cases hend
    · cases hcons
  · cases h

/-- **The value of a written text takes up its line, and is no longer than the text, less its
quotation mark; or a quoted part of it runs into the lines that follow.** -/
theorem readValue_written {fuel : Nat} {s t : List Char} {column : Nat} {first : Bool}
    {acc value : List Char} {next : Cursor}
    (h : readValue fuel (written s ++ '\n' :: t) column first acc = .ended value next) :
    next.rest = '\n' :: t ∧ value.length ≤ acc.length + s.length ∧
      ((∃ c ∈ s.head?, isQuote c = true) → value.length < acc.length + s.length) ∨
    next.rest <:+ t ∧ t ≠ [] := by
  induction fuel generalizing s column first acc with
  | zero => cases h
  | succ fuel ih =>
    by_cases hs : ∃ c ∈ s.head?, isQuote c = true
    · obtain ⟨q, hq, hquote⟩ := hs
      obtain ⟨s, rfl⟩ := List.head?_eq_some_iff.mp hq
      have hb : q ≠ '\\' := by rintro rfl; cases hquote
      rw [written_cons, escape_of_isQuote hquote, List.append_assoc, List.singleton_append,
        readValue_quote hquote] at h
      have hstop {c : Char} (hc : c ≠ q) : decide (c = q) = false ∨ escape c ≠ [c] :=
        .inl (decide_eq_false hc)
      by_cases hmem : q ∈ s
      · -- The quoted part ends in the text, and the value goes on behind it.
        obtain ⟨s₁, s₂, rfl, hnot⟩ := List.eq_append_cons_of_mem hmem
        obtain ⟨column', hread⟩ := readUntil_written (· = q) false (s := s₁)
          (fun c hc => hstop (by rintro rfl; exact hnot hc)) (c := q) (decide_eq_true rfl) hb
          (written s₂ ++ '\n' :: t) (column + 1)
        rw [written_append, written_cons, escape_of_isQuote hquote, List.append_assoc,
          List.append_assoc, List.singleton_append, hread] at h
        refine (ih h).imp_left fun ⟨hrest, hle, _⟩ => ?_
        simp only [List.length_append, List.length_map, List.length_cons] at hle ⊢
        exact ⟨hrest, by omega, fun _ => by omega⟩
      · obtain ⟨column', hread⟩ := readUntil_written_append (· = q) false (s := s)
          (fun c hc => hstop (by rintro rfl; exact hmem hc)) ('\n' :: t)
          (column + 1) []
        rw [hread] at h
        exact .inr (readValue_overrun hquote h)
    · have hs : ∀ c ∈ s.head?, isQuote c = false := fun c hc =>
        Bool.eq_false_iff.mpr fun h => hs ⟨c, hc, h⟩
      obtain ⟨column', hread⟩ := readValue_written_plain hs fuel t column first acc
      rw [hread] at h
      cases h
      refine .inl ⟨rfl, ?_, fun ⟨c, hc, hquote⟩ => ?_⟩
      · rw [List.length_append]
        refine Nat.add_le_add_left ?_ _
        have hlength : (s.map readBack).length = s.length := List.length_map readBack
        rw [← hlength]
        split
        · exact (infix_trim _).length_le
        · exact (prefix_trimEnd _).length_le
      · rw [hs c hc] at hquote
        cases hquote

end LiveTrip.Ini
