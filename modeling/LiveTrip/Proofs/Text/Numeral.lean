import LiveTrip.Text.Numeral

/-!
# Numerals that are read back

* `Denotes`: a text is a numeral of a number; zeros at its start and a plus sign are of no account.
* `natOf?_of_denotes`: a numeral is read as its number, if that is below the bound.
* `natOf?_toString`: the decimal digits of a number denote it.
-/

namespace LiveTrip.Text

theorem digit?_of_isDigit {c : Char} (h : c.isDigit = true) :
    digit? c = some (c.toNat - '0'.toNat) := if_pos h

/-- A fold that takes in digits gives their number. -/
theorem foldl_of_isDigit {f : Option Nat → Char → Option Nat}
    (hf : ∀ n c, c.isDigit = true → f (some n) c = some (n * 10 + (c.toNat - '0'.toNat)))
    {s : List Char} (h : ∀ c ∈ s, c.isDigit = true) (n : Nat) :
    s.foldl f (some n) = some (Nat.ofDigitChars 10 s n) := by
  induction s generalizing n with
  | nil => rfl
  | cons c s ih =>
    rw [List.foldl_cons, hf n c (h c List.mem_cons_self), Nat.ofDigitChars_cons, Nat.mul_comm 10 n]
    exact ih (fun d hd => h d (List.mem_cons_of_mem _ hd)) _

theorem digitsOf?_of_isDigit {s : List Char} (h : ∀ c ∈ s, c.isDigit = true) :
    digitsOf? digit? 10 s = some (Nat.ofDigitChars 10 s 0) :=
  foldl_of_isDigit (fun _ _ hc => by rw [digit?_of_isDigit hc]) h 0

/-- Digits, one at least, after an optional plus sign. -/
def Denotes (s : List Char) (n : Nat) : Prop :=
  ∃ digits, (s = digits ∨ s = '+' :: digits) ∧ digits ≠ [] ∧
    (∀ c ∈ digits, c.isDigit = true) ∧ Nat.ofDigitChars 10 digits 0 = n

theorem unsignedOf?_of_denotes {s : List Char} {n : Nat} (h : Denotes s n) :
    unsignedOf? digit? 10 s = some n := by
  obtain ⟨digits, hs, hne, hdigits, rfl⟩ := h
  have hempty : digits.isEmpty = false := by simpa using hne
  rcases hs with rfl | rfl
  · unfold unsignedOf?
    split
    · rename_i rest
      -- The sign is no digit.
      cases hdigits '+' List.mem_cons_self
    · simp only [hempty, Bool.false_eq_true, ↓reduceIte, digitsOf?_of_isDigit hdigits]
  · simp only [unsignedOf?, hempty, Bool.false_eq_true, ↓reduceIte,
      digitsOf?_of_isDigit hdigits]

/-- **A numeral is read as its number.** -/
theorem natOf?_of_denotes {s : List Char} {bound n : Nat} (h : Denotes s n) (hn : n < bound) :
    natOf? bound s = some n := by
  rw [natOf?, unsignedOf?_of_denotes h]
  simp [hn]

theorem denotes_toString (n : Nat) : Denotes (toString n).toList n := by
  rw [Nat.toString_eq_repr, Nat.toList_repr]
  exact ⟨Nat.toDigits 10 n, .inl rfl, by simp,
    fun c hc => Nat.isDigit_of_mem_toDigits (by decide) (by decide) hc,
    Nat.ofDigitChars_ten_toDigits⟩

/-- **The decimal digits of a number denote it.** -/
theorem natOf?_toString {bound n : Nat} (h : n < bound) :
    natOf? bound (toString n).toList = some n := natOf?_of_denotes (denotes_toString n) h

end LiveTrip.Text
