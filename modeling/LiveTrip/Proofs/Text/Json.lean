import LiveTrip.Proofs.Text.Numeral
import LiveTrip.Text.Json

/-!
# JSON text that is read back

* `Numeral.WellFormed`, `WellFormed`: the numerals that the grammar has, and the values with no
  other numerals in them. The numerals of numbers are well-formed.
* `readNumber_chars`, `readString_stringChars`: a number is read back from its numeral if what comes
  next may follow a value (`Follows`); a string is read back, whatever comes next.
* `Gets`: the loop gets from one place in a text to another. Rounds are counted by the characters
  they take up, since the loop has fuel for one round a character.
* `takes_chars`, `read?_text`: a value is read back, in the midst of a text and from a text of its
  own.
-/

namespace LiveTrip.Json

open Text

/-! ## Digits -/

/-- A text of digits, one at least. -/
structure Digits (s : List Char) : Prop where
  ne_nil : s ≠ []
  digit : ∀ c ∈ s, c.isDigit = true

theorem digits_toDigits (n : Nat) : Digits (Nat.toDigits 10 n) where
  ne_nil := Nat.toDigits_ne_nil
  digit _ hc := Nat.isDigit_of_mem_toDigits (by decide) (by decide) hc

theorem digits_zero : Digits ['0'] := ⟨by simp, by simp⟩

theorem isDigit_of_mem_zeros {n : Nat} {c : Char} (h : c ∈ List.replicate n '0') :
    c.isDigit = true := by rw [List.eq_of_mem_replicate h]; rfl

namespace Digits

variable {s t : List Char}

theorem append (hs : Digits s) (ht : ∀ c ∈ t, c.isDigit = true) : Digits (s ++ t) where
  ne_nil := by simp [hs.ne_nil]
  digit c hc := (List.mem_append.mp hc).elim (hs.digit c) (ht c)

theorem head?_append (h : Digits s) : (s ++ t).head? = s.head? := by
  cases s with
  | nil => exact absurd rfl h.ne_nil
  | cons c s => rfl

theorem zeros_append (h : Digits s) (n : Nat) : Digits (.replicate n '0' ++ s) where
  ne_nil := by simp [h.ne_nil]
  digit c hc := (List.mem_append.mp hc).elim isDigit_of_mem_zeros (h.digit c)

theorem take (h : Digits s) {k : Nat} (hk : 0 < k) : Digits (s.take k) where
  ne_nil := by
    have hk : k ≠ 0 := by omega
    simp [h.ne_nil, hk]
  digit c hc := h.digit c (List.mem_of_mem_take hc)

theorem drop (h : Digits s) {k : Nat} (hk : k < s.length) : Digits (s.drop k) where
  ne_nil := by simpa using hk
  digit c hc := h.digit c (List.mem_of_mem_drop hc)

end Digits

/-- The first digit of a number is not zero, but for zero. -/
theorem head?_toDigits {n : Nat} (hn : n ≠ 0) : (Nat.toDigits 10 n).head? ≠ some '0' := by
  induction n using Nat.strongRecOn with
  | ind n ih =>
    rcases Nat.lt_or_ge n 10 with hlt | hge
    · rw [Nat.toDigits_of_lt_base hlt]
      simpa using hn
    · rw [Nat.toDigits_of_base_le (by decide) hge, (digits_toDigits _).head?_append]
      exact ih (n / 10) (by omega) (by omega)

theorem splitDigits_append {s t : List Char} (hs : ∀ c ∈ s, c.isDigit = true)
    (ht : ∀ c ∈ t.head?, c.isDigit = false) : splitDigits (s ++ t) = (s, t) := by
  rw [splitDigits, List.takeWhile_append_of_pos hs, List.dropWhile_append_of_pos hs]
  cases t with
  | nil => simp
  | cons c t => simp [ht c rfl]

/-! ## Numerals -/

/-- The numerals that the grammar has. -/
structure Numeral.WellFormed (n : Numeral) : Prop where
  whole : Digits n.whole
  /-- Only zero itself starts with a zero. -/
  lead : n.whole.head? = some '0' → n.whole.length = 1
  places : ∀ s ∈ n.places, Digits s
  exponent : ∀ e ∈ n.exponent, Digits e.2

namespace Numeral

theorem wellFormed_ofNat (n : Nat) : (ofNat n).WellFormed where
  whole := digits_toDigits n
  lead h := by
    by_cases hn : n = 0
    · rw [ofNat, hn]; rfl
    · exact absurd h (head?_toDigits hn)
  places := by simp [ofNat]
  exponent := by simp [ofNat]

theorem wellFormed_ofDecimal (negative : Bool) (n : Nat) (e : Int) :
    (ofDecimal negative n e).WellFormed := by
  have hdigits := digits_toDigits n
  have hpos := Nat.length_toDigits_pos (b := 10) (n := n)
  unfold ofDecimal
  by_cases hn : n = 0
  · simp only [hn, ↓reduceIte]
    exact ⟨digits_zero, fun _ => rfl, by simp [digits_zero], by simp⟩
  -- What starts as the digits of `n` do does not start with a zero.
  have hlead {s : List Char} (hs : s.head? = (Nat.toDigits 10 n).head?) :
      s.head? = some '0' → s.length = 1 := fun h => absurd (hs ▸ h) (head?_toDigits hn)
  have htake {k : Nat} (hk : 0 < k) :
      ((Nat.toDigits 10 n).take k).head? = (Nat.toDigits 10 n).head? := by
    rw [List.head?_take, if_neg (by omega)]
  simp only [hn, ↓reduceIte]
  split
  -- All digits stand before the point.
  · exact ⟨hdigits.append fun _ => isDigit_of_mem_zeros, hlead hdigits.head?_append,
      by simp [digits_zero], by simp⟩
  split
  -- The point stands among the digits.
  · refine ⟨hdigits.take (by omega), hlead (htake (by omega)), ?_, by simp⟩
    rintro s ⟨⟩
    exact hdigits.drop (by omega)
  split
  -- All digits stand after the point.
  · refine ⟨digits_zero, fun _ => rfl, ?_, by simp⟩
    rintro s ⟨⟩
    exact hdigits.zeros_append _
  -- The point stands after the first digit, if there are others.
  · refine ⟨hdigits.take (by omega), hlead (htake (by omega)), ?_, ?_⟩
    · intro s hs
      split at hs
      · cases hs
      · cases hs
        exact hdigits.drop (by omega)
    · rintro s ⟨⟩
      exact digits_toDigits _

theorem wellFormed_ofFloat (x : Float) : (ofFloat x).WellFormed := wellFormed_ofDecimal _ _ _

end Numeral

/-! ## Reading numbers -/

/-- What may follow a value: nothing, the next item, or the end of a container. -/
def Follows (rest : List Char) : Prop := ∀ c ∈ rest.head?, c = ',' ∨ c = ']' ∨ c = '}'

theorem follows_itemChars (items : List Json) (rest : List Char) :
    Follows (itemChars items ++ rest) := by
  intro c hc
  cases items <;> (rw [itemChars] at hc; cases hc; simp)

theorem follows_memberChars (members : List (Option String × Json)) (rest : List Char) :
    Follows (memberChars members ++ rest) := by
  intro c hc
  cases members <;> (rw [memberChars] at hc; cases hc; simp)

theorem Follows.isDigit {rest : List Char} (h : Follows rest) :
    ∀ c ∈ rest.head?, c.isDigit = false := by
  intro c hc
  rcases h c hc with rfl | rfl | rfl <;> rfl

section

variable {rest : List Char}

theorem readSign_digits {s : List Char} (h : Digits s) :
    readSign (s ++ rest) = (false, s ++ rest) := by
  obtain ⟨c, s, rfl⟩ := List.exists_cons_of_ne_nil h.ne_nil
  have hc := h.digit c List.mem_cons_self
  unfold readSign
  split
  · rename_i heq; cases heq; cases hc
  · rename_i heq; cases heq; cases hc
  · rfl

theorem readExponent_exponentChars {exponent : Option (Bool × List Char)}
    (h : ∀ e ∈ exponent, Digits e.2) (hrest : Follows rest) :
    readExponent (Numeral.exponentChars exponent ++ rest) = some (exponent, rest) := by
  match exponent with
  | none =>
    cases rest with
    | nil => rfl
    | cons c s => rcases hrest c rfl with rfl | rfl | rfl <;> rfl
  | some (minus, digits) =>
    have hdigits : Digits digits := h _ rfl
    have hend := splitDigits_append hdigits.digit hrest.isDigit
    cases minus with
    | true => simp [Numeral.exponentChars, readExponent, readSign, hend, hdigits.ne_nil]
    | false =>
      simp [Numeral.exponentChars, readExponent, readSign_digits hdigits, hend, hdigits.ne_nil]

/-- No exponent starts with a digit or a point, and nothing that may follow it. -/
theorem head?_exponentChars (exponent : Option (Bool × List Char)) (hrest : Follows rest) :
    ∀ c ∈ (Numeral.exponentChars exponent ++ rest).head?, c.isDigit = false ∧ c ≠ '.' := by
  intro c hc
  match exponent with
  | none => rcases hrest c hc with rfl | rfl | rfl <;> decide
  | some (true, digits) => cases hc; decide
  | some (false, digits) => cases hc; decide

theorem readPlaces_placesChars {places : Option (List Char)} (h : ∀ s ∈ places, Digits s)
    (hrest : ∀ c ∈ rest.head?, c.isDigit = false ∧ c ≠ '.') :
    readPlaces (Numeral.placesChars places ++ rest) = some (places, rest) := by
  match places with
  | none =>
    cases rest with
    | nil => rfl
    | cons c s =>
      have hc := (hrest c rfl).2
      simp [Numeral.placesChars, readPlaces, hc]
  | some digits =>
    have hdigits : Digits digits := h _ rfl
    have hend := splitDigits_append hdigits.digit fun c hc => (hrest c hc).1
    simp [Numeral.placesChars, readPlaces, hend, hdigits.ne_nil]

theorem readMagnitude_magnitudeChars {n : Numeral} (h : n.WellFormed) (hrest : Follows rest) :
    readMagnitude n.negative (n.magnitudeChars ++ rest) = some (n, rest) := by
  have hhead := head?_exponentChars n.exponent hrest
  have hwhole : (n.whole.isEmpty || (n.whole.head? = some '0' && n.whole.length ≠ 1)) = false := by
    simpa [h.whole.ne_nil] using h.lead
  have hsplit : splitDigits (n.magnitudeChars ++ rest) =
      (n.whole, Numeral.placesChars n.places ++ (Numeral.exponentChars n.exponent ++ rest)) := by
    rw [Numeral.magnitudeChars, List.append_assoc, List.append_assoc]
    refine splitDigits_append h.whole.digit fun c hc => ?_
    cases hplaces : n.places with
    | none => rw [hplaces] at hc; exact (hhead c hc).1
    | some s => rw [hplaces] at hc; cases hc; rfl
  simp only [readMagnitude, hsplit, hwhole, Bool.false_eq_true, ↓reduceIte,
    readPlaces_placesChars h.places hhead, readExponent_exponentChars h.exponent hrest,
    Option.bind_eq_bind, Option.bind_some, Option.pure_def]

/-- A numeral starts with a digit or a minus sign. -/
theorem exists_magnitudeChars {n : Numeral} (h : n.WellFormed) :
    ∃ c s, n.magnitudeChars = c :: s ∧ c.isDigit = true := by
  obtain ⟨c, s, hs⟩ := List.exists_cons_of_ne_nil h.whole.ne_nil
  exact ⟨c, _, by rw [Numeral.magnitudeChars, hs, List.cons_append],
    h.whole.digit c (hs ▸ List.mem_cons_self)⟩

theorem exists_numeralChars {n : Numeral} (h : n.WellFormed) :
    ∃ c s, n.chars = c :: s ∧ (c = '-' ∨ c.isDigit = true) := by
  obtain ⟨c, s, hs, hc⟩ := exists_magnitudeChars h
  cases hn : n.negative with
  | true => exact ⟨'-', _, by rw [Numeral.chars, hn, if_pos rfl], .inl rfl⟩
  | false => exact ⟨c, s, by rw [Numeral.chars, hn, ← hs]; rfl, .inr hc⟩

/-- **A number is read back from its numeral.** -/
theorem readNumber_chars {n : Numeral} (h : n.WellFormed) (hrest : Follows rest) :
    readNumber (n.chars ++ rest) = some (n, rest) := by
  have hread := readMagnitude_magnitudeChars h hrest
  cases hn : n.negative with
  | true =>
    rw [hn] at hread
    simpa [Numeral.chars, hn, readNumber] using hread
  | false =>
    obtain ⟨c, s, hs, hc⟩ := exists_magnitudeChars h
    simp only [Numeral.chars, hn, Bool.false_eq_true, ↓reduceIte]
    rw [hn, hs] at hread
    rw [hs]
    unfold readNumber
    split
    · rename_i heq; cases heq; cases hc
    · exact hread

end

/-! ## Reading strings -/

theorem readString_quote (rest : List Char) (d : Draft) :
    readString ('"' :: rest) d = some (d.text?, rest) := by
  rw [readString.eq_def]
  simp

theorem readString_cons {c : Char} (hquote : c ≠ '"') (hslash : c ≠ '\\') (hlow : ¬c.toNat < 0x20)
    (rest : List Char) (d : Draft) : readString (c :: rest) d = readString rest (d.push c) := by
  rw [readString.eq_def]
  simp [hquote, hslash, hlow]

theorem hex4?_hex2 : ∀ n < 0x20, hex4? ('0' :: '0' :: hex2 n) = some n := by decide

/-- A written character is read back. -/
theorem readString_escape (c : Char) (s cs : List Char) :
    readString (escape c ++ s) (.text cs) = readString s (.text (c :: cs)) := by
  unfold escape
  split
  case h_8 hquote hslash _ _ _ _ _ =>
    split
    · rename_i h
      have hhex := hex4?_hex2 c.toNat h
      have hunit : Draft.pushUnit (.text cs) c.toNat = .text (c :: cs) := by
        rw [Draft.pushUnit, if_neg (by omega), if_neg (by omega), Char.ofNat_toNat]
      simp only [hex2, List.map_cons, List.map_nil] at hhex
      simp [hex2, readString, hhex, hunit]
    · exact readString_cons hquote hslash ‹_› s _
  all_goals simp [readString, escapeOf?, Draft.push]

theorem readString_escaped (s rest cs : List Char) :
    readString (s.flatMap escape ++ '"' :: rest) (.text cs) =
      some (some (String.ofList (cs.reverse ++ s)), rest) := by
  induction s generalizing cs with
  | nil => simp [readString_quote, Draft.text?]
  | cons c s ih =>
    rw [List.flatMap_cons, List.append_assoc, readString_escape, ih, List.reverse_cons,
      List.append_assoc, List.singleton_append]

/-- **A string is read back**, after its first quotation mark. -/
theorem readString_stringChars (text : Option String) (rest : List Char) :
    readString (stringChars text ++ '"' :: rest) (.text []) = some (text, rest) := by
  cases text with
  | none =>
    have hhex : hex4? ['d', '8', '0', '0'] = some 0xD800 := by decide
    simp [stringChars, readString, hhex, Draft.pushUnit, readString_quote, Draft.text?]
  | some text => simpa [stringChars] using readString_escaped text.toList rest []

/-! ## Reading values -/

/-- The values that have only numerals of the grammar in them. -/
inductive WellFormed : Json → Prop
  | null : WellFormed .null
  | bool (b : Bool) : WellFormed (.bool b)
  | number {n : Numeral} (h : n.WellFormed) : WellFormed (.number n)
  | string (text : Option String) : WellFormed (.string text)
  | array {items : List Json} (h : ∀ v ∈ items, WellFormed v) : WellFormed (.array items)
  | object {members : List (Option String × Json)} (h : ∀ m ∈ members, WellFormed m.2) :
    WellFormed (.object members)

/-- A place in the course of reading. -/
structure Place where
  next : Next
  rest : List Char
  stack : List Pending

/-- Reading gets from one place to another, in no more rounds than the characters between. -/
def Gets (a b : Place) : Prop :=
  ∃ rounds, rounds + b.rest.length ≤ a.rest.length ∧
    ∀ fuel, readLoop (fuel + rounds) a.next a.rest a.stack = readLoop fuel b.next b.rest b.stack

theorem Gets.trans {a b c : Place} (hab : Gets a b) (hbc : Gets b c) : Gets a c := by
  obtain ⟨m, hm, hab⟩ := hab
  obtain ⟨n, hn, hbc⟩ := hbc
  refine ⟨n + m, by omega, fun fuel => ?_⟩
  rw [← Nat.add_assoc, hab, hbc]

/-- One round takes up a character at least. -/
theorem Gets.round {a b : Place} (hlt : b.rest.length < a.rest.length)
    (h : ∀ fuel, readLoop (fuel + 1) a.next a.rest a.stack = readLoop fuel b.next b.rest b.stack) :
    Gets a b := ⟨1, by omega, h⟩

/-- A value takes up the start of a text, whatever containers are open. -/
def Takes (s : List Char) (v : Json) (rest : List Char) : Prop :=
  ∀ stack, Gets ⟨.value, s, stack⟩ ⟨.after v, rest, stack⟩

/-- A value that is read in one round. -/
theorem Takes.of_round {s rest : List Char} {v : Json} (hne : s ≠ [])
    (h : ∀ fuel stack,
      readLoop (fuel + 1) .value (s ++ rest) stack = readLoop fuel (.after v) rest stack) :
    Takes (s ++ rest) v rest := by
  intro stack
  have hpos := List.length_pos_iff.mpr hne
  refine .round ?_ fun fuel => h fuel stack
  simp only [List.length_append]
  omega

@[simp] theorem skipSpace_cons {c : Char} (h : isSpace c = false) (s : List Char) :
    skipSpace (c :: s) = c :: s := by simp [skipSpace, h]

theorem not_isSpace_of_lead {c : Char} (h : c = '-' ∨ c.isDigit = true) : isSpace c = false := by
  refine Bool.eq_false_iff.mpr fun hspace => ?_
  simp only [isSpace, Bool.or_eq_true, decide_eq_true_eq] at hspace
  rcases hspace with ((rfl | rfl) | rfl) | rfl <;> revert h <;> decide

/-- No other value starts as a number does. -/
theorem takes_number {n : Numeral} {rest : List Char} (h : n.WellFormed) (hrest : Follows rest) :
    Takes (n.chars ++ rest) (.number n) rest := by
  obtain ⟨c, s, hs, hc⟩ := exists_numeralChars h
  have hread := readNumber_chars h hrest
  refine .of_round (by simp [hs]) fun fuel stack => ?_
  rw [hs, List.cons_append] at hread ⊢
  simp only [readLoop, skipSpace_cons (not_isSpace_of_lead hc)]
  split
  case h_7 => rw [hread]
  all_goals
    rename_i heq
    rw [(List.cons.inj heq).1] at hc
    exact absurd hc (by decide)

theorem takes_string (text : Option String) (rest : List Char) :
    Takes (quoted text ++ rest) (.string text) rest := by
  have hread := readString_stringChars text rest
  refine .of_round (by simp [quoted]) fun fuel stack => ?_
  simp [quoted, readLoop, isSpace, hread]

/-! ### Arrays -/

/-- A value starts with no blank, and not with the end of an array. -/
theorem exists_chars {v : Json} (h : v.WellFormed) :
    ∃ c s, v.chars = c :: s ∧ isSpace c = false ∧ c ≠ ']' := by
  cases h with
  | null => exact ⟨_, _, by rw [chars], by decide⟩
  | bool b => cases b <;> exact ⟨_, _, by rw [chars], by decide⟩
  | number h =>
    obtain ⟨c, s, hs, hc⟩ := exists_numeralChars h
    refine ⟨c, s, by rw [chars, hs], not_isSpace_of_lead hc, ?_⟩
    rintro rfl
    revert hc
    decide
  | string text => exact ⟨_, _, by rw [chars, quoted, List.cons_append], by decide⟩
  | @array items =>
    cases items <;> (rw [chars]; exact ⟨_, _, rfl, by decide⟩)
  | @object members =>
    cases members <;> (rw [chars]; exact ⟨_, _, rfl, by decide⟩)

theorem gets_openArray {v : Json} (h : v.WellFormed) (s : List Char) (stack : List Pending) :
    Gets ⟨.value, '[' :: (v.chars ++ s), stack⟩ ⟨.value, v.chars ++ s, .array [] :: stack⟩ := by
  obtain ⟨c, t, hc, hspace, hend⟩ := exists_chars h
  rw [hc, List.cons_append]
  refine .round (by simp) fun fuel => ?_
  have hopen : skipSpace ('[' :: c :: (t ++ s)) = '[' :: c :: (t ++ s) := skipSpace_cons rfl _
  simp only [readLoop, hopen, skipSpace_cons hspace]
  split
  · rename_i heq; cases heq; exact absurd rfl hend
  · rfl

theorem gets_nextItem (v : Json) (items : List Json) (s : List Char) (stack : List Pending) :
    Gets ⟨.after v, ',' :: s, .array items :: stack⟩ ⟨.value, s, .array (v :: items) :: stack⟩ := by
  refine .round (by simp) fun fuel => ?_
  simp [readLoop, isSpace]

theorem gets_closeArray (v : Json) (items : List Json) (s : List Char) (stack : List Pending) :
    Gets ⟨.after v, ']' :: s, .array items :: stack⟩
      ⟨.after (.array (v :: items).reverse), s, stack⟩ := by
  refine .round (by simp) fun fuel => ?_
  simp [readLoop, isSpace]

/-- After an item, the others follow, and the end of the array. -/
theorem gets_itemChars {items : List Json}
    (h : ∀ v ∈ items, ∀ s, Follows s → Takes (v.chars ++ s) v s) (v : Json) (past : List Json)
    (rest : List Char) (stack : List Pending) :
    Gets ⟨.after v, itemChars items ++ rest, .array past :: stack⟩
      ⟨.after (.array (past.reverse ++ v :: items)), rest, stack⟩ := by
  induction items generalizing v past with
  | nil =>
    have hclose := gets_closeArray v past rest stack
    rwa [List.reverse_cons] at hclose
  | cons w items ih =>
    have hitem := h w List.mem_cons_self _ (follows_itemChars items rest)
      (.array (v :: past) :: stack)
    have hrest := ih (fun u hu => h u (List.mem_cons_of_mem _ hu)) w (v :: past)
    rw [itemChars, List.cons_append, List.cons_append, List.append_assoc]
    rw [List.reverse_cons, List.append_assoc] at hrest
    exact ((gets_nextItem ..).trans hitem).trans hrest

/-! ### Objects -/

theorem readName_quoted (name : Option String) (s : List Char) :
    readName (quoted name ++ ':' :: s) = some (name, s) := by
  have hread := readString_stringChars name (':' :: s)
  simp [readName, quoted, isSpace, hread]

theorem gets_openObject (name : Option String) (s : List Char) (stack : List Pending) :
    Gets ⟨.value, '{' :: (quoted name ++ ':' :: s), stack⟩
      ⟨.value, s, .object [] name :: stack⟩ := by
  refine .round (by simp only [List.length_cons, List.length_append]; omega) fun fuel => ?_
  have hread := readName_quoted name s
  have hname : skipSpace (quoted name ++ ':' :: s) = quoted name ++ ':' :: s := skipSpace_cons rfl _
  simp only [readLoop, skipSpace_cons (c := '{') rfl, hname]
  split
  · rename_i heq; cases heq
  · rw [hread]

theorem gets_nextMember (v : Json) (members : List (Option String × Json))
    (name next : Option String) (s : List Char) (stack : List Pending) :
    Gets ⟨.after v, ',' :: (quoted next ++ ':' :: s), .object members name :: stack⟩
      ⟨.value, s, .object ((name, v) :: members) next :: stack⟩ := by
  refine .round (by simp only [List.length_cons, List.length_append]; omega) fun fuel => ?_
  simp [readLoop, isSpace, readName_quoted]

theorem gets_closeObject (v : Json) (members : List (Option String × Json)) (name : Option String)
    (s : List Char) (stack : List Pending) :
    Gets ⟨.after v, '}' :: s, .object members name :: stack⟩
      ⟨.after (.object ((name, v) :: members).reverse), s, stack⟩ := by
  refine .round (by simp) fun fuel => ?_
  simp [readLoop, isSpace]

theorem gets_memberChars {members : List (Option String × Json)}
    (h : ∀ m ∈ members, ∀ s, Follows s → Takes (m.2.chars ++ s) m.2 s) (v : Json)
    (past : List (Option String × Json)) (name : Option String) (rest : List Char)
    (stack : List Pending) :
    Gets ⟨.after v, memberChars members ++ rest, .object past name :: stack⟩
      ⟨.after (.object (past.reverse ++ (name, v) :: members)), rest, stack⟩ := by
  induction members generalizing v past name with
  | nil =>
    have hclose := gets_closeObject v past name rest stack
    rwa [List.reverse_cons] at hclose
  | cons m members ih =>
    obtain ⟨next, w⟩ := m
    have hmember := h _ List.mem_cons_self _ (follows_memberChars members rest)
      (.object ((name, v) :: past) next :: stack)
    have hrest := ih (fun m hm => h m (List.mem_cons_of_mem _ hm)) w ((name, v) :: past) next
    rw [List.reverse_cons, List.append_assoc] at hrest
    simp only [memberChars, List.cons_append, List.append_assoc]
    exact ((gets_nextMember ..).trans hmember).trans hrest

/-! ### All values -/

/-- **A value is read back**, whatever containers are open. -/
theorem takes_chars {v : Json} (h : v.WellFormed) :
    ∀ rest, Follows rest → Takes (v.chars ++ rest) v rest := by
  induction h with
  | null =>
    intro rest _
    exact .of_round (by simp [chars]) (by simp [chars, readLoop, isSpace])
  | bool b =>
    intro rest _
    cases b <;> exact .of_round (by simp [chars]) (by simp [chars, readLoop, isSpace])
  | number h =>
    intro rest hrest
    rw [chars]
    exact takes_number h hrest
  | string text =>
    intro rest _
    rw [chars]
    exact takes_string text rest
  | @array items h ih =>
    intro rest _
    cases items with
    | nil => exact .of_round (by simp [chars]) (by simp [chars, readLoop, isSpace])
    | cons v items =>
      intro stack
      have hopen := gets_openArray (h v List.mem_cons_self) (itemChars items ++ rest) stack
      have hfirst := ih v List.mem_cons_self _ (follows_itemChars items rest) (.array [] :: stack)
      have hothers := gets_itemChars (fun w hw => ih w (List.mem_cons_of_mem _ hw)) v [] rest stack
      rw [chars, List.cons_append, List.cons_append, List.append_assoc]
      exact (hopen.trans hfirst).trans hothers
  | @object members h ih =>
    intro rest _
    match members with
    | [] => exact .of_round (by simp [chars]) (by simp [chars, readLoop, isSpace])
    | (name, v) :: members =>
      intro stack
      have hopen := gets_openObject name (v.chars ++ (memberChars members ++ rest)) stack
      have hfirst := ih _ List.mem_cons_self _ (follows_memberChars members rest)
        (.object [] name :: stack)
      have hothers := gets_memberChars (fun m hm => ih m (List.mem_cons_of_mem _ hm)) v [] name rest
        stack
      simp only [chars, List.cons_append, List.append_assoc]
      exact (hopen.trans hfirst).trans hothers

/-- **A value is read back from its text.** -/
theorem read?_text {v : Json} (h : v.WellFormed) : read? v.text = some v := by
  obtain ⟨rounds, hle, hgets⟩ := takes_chars h [] (by simp [Follows]) []
  simp only [List.append_nil, List.length_nil, Nat.add_zero] at hle hgets
  obtain ⟨fuel, hfuel⟩ : ∃ fuel, v.chars.length + 2 = (fuel + 1) + rounds :=
    ⟨v.chars.length + 1 - rounds, by omega⟩
  rw [read?, text, String.toList_ofList, hfuel, hgets]
  rfl

/-! ## Numbers as values -/

theorem wellFormed_ofNat (n : Nat) : (ofNat n).WellFormed := .number (Numeral.wellFormed_ofNat n)

theorem wellFormed_ofFloat (x : Float) : (ofFloat x).WellFormed := by
  unfold ofFloat
  split
  · exact .number (Numeral.wellFormed_ofFloat x)
  · exact .null

theorem wellFormed_ofOption {α : Type} {f : α → Json} (h : ∀ a, (f a).WellFormed) (a : Option α) :
    (ofOption f a).WellFormed := by
  cases a with
  | none => exact .null
  | some a => exact h a

/-- **The numeral of a number has its value.** -/
theorem Numeral.nat?_ofNat {bound n : Nat} (h : n < bound) :
    (Numeral.ofNat n).nat? bound = some n := by
  have hdigits := digitsOf?_of_isDigit (digits_toDigits n).digit
  rw [Nat.ofDigitChars_ten_toDigits] at hdigits
  simp [Numeral.nat?, Numeral.ofNat, hdigits, h]

end LiveTrip.Json
