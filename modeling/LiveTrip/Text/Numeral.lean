/-!
# Numerals

* `digit?`, `hexDigit?`: the value of a digit.
* `natOf?`: a whole number in decimal digits, with an optional plus sign, below a bound.
* `floatOf?`: a decimal numeral with an optional sign, point and exponent, or a name of infinity or
  of not a number; the nearest double.
* `decimalOf`: a decimal in few digits of which a double is the nearest.
-/

namespace LiveTrip.Text

/-- The value of a decimal digit. -/
def digit? (c : Char) : Option Nat := if c.isDigit then some (c.toNat - '0'.toNat) else none

/-- The value of a hexadecimal digit, in either case. -/
def hexDigit? (c : Char) : Option Nat :=
  if c.isDigit then some (c.toNat - '0'.toNat)
  else if 'a' ≤ c ∧ c ≤ 'f' then some (c.toNat - 'a'.toNat + 10)
  else if 'A' ≤ c ∧ c ≤ 'F' then some (c.toNat - 'A'.toNat + 10)
  else none

/-- The number that digits in base `base` denote, if all of them are digits. -/
def digitsOf? (value : Char → Option Nat) (base : Nat) (s : List Char) : Option Nat :=
  s.foldl (fun acc c => match acc, value c with
    | some n, some d => some (n * base + d)
    | _, _ => none) (some 0)

/-- At least one digit in base `base`, after an optional plus sign. -/
def unsignedOf? (value : Char → Option Nat) (base : Nat) (s : List Char) : Option Nat :=
  let digits := match s with
    | '+' :: rest => rest
    | _ => s
  if digits.isEmpty then none else digitsOf? value base digits

/-- A whole number below `bound`, in decimal digits after an optional plus sign. -/
def natOf? (bound : Nat) (s : List Char) : Option Nat :=
  (unsignedOf? digit? 10 s).filter (· < bound)

/-- A whole number that is not negative and below `bound`; zero may have a minus sign. -/
def signedNatOf? (bound : Nat) (s : List Char) : Option Nat :=
  match s with
  | '-' :: digits =>
    if digits.isEmpty then none else (digitsOf? digit? 10 digits).filter (· = 0)
  | _ => natOf? bound s

/-- One more than the greatest byte. -/
def byteBound : Nat := .pow 2 8

/-- One more than the greatest 32-bit word. -/
def wordBound : Nat := .pow 2 32

/-- One more than the greatest 64-bit word. -/
def longBound : Nat := .pow 2 64

/-- Decimal digits at the head of a text, and what follows them. -/
def splitDigits (s : List Char) : List Char × List Char :=
  (s.takeWhile Char.isDigit, s.dropWhile Char.isDigit)

/-- A decimal exponent, `e` or `E` included, that takes up the rest of the text. -/
def exponentOf? (s : List Char) : Option Int :=
  match s with
  | [] => some 0
  | e :: rest =>
    if e = 'e' ∨ e = 'E' then
      match rest with
      | '-' :: digits =>
        if digits.isEmpty then none else (digitsOf? digit? 10 digits).map fun n => -(n : Int)
      | _ => (unsignedOf? digit? 10 rest).map fun n => (n : Int)
    else none

/-- Exponents beyond this denote zero or infinity, whatever the digits of a numeral of usual length.
-/
def exponentLimit : Int := 20000

/-- The double nearest to `mantissa · 10 ^ exponent`. -/
def scientific (mantissa : Nat) (exponent : Int) : Float :=
  let e := max (-exponentLimit) (min exponentLimit exponent)
  Float.ofScientific mantissa (decide (e < 0)) e.natAbs

/-- An unsigned numeral. -/
def magnitudeOf? (s : List Char) : Option Float :=
  let lower := String.ofList (s.map Char.toLower)
  if lower = "inf" ∨ lower = "infinity" then some (1.0 / 0.0)
  else if lower = "nan" then some (0.0 / 0.0)
  else
    let (whole, rest) := splitDigits s
    let (places, rest) := match rest with
      | '.' :: r => splitDigits r
      | _ => ([], rest)
    if whole.isEmpty && places.isEmpty then none
    else do
      let exponent ← exponentOf? rest
      let mantissa ← digitsOf? digit? 10 (whole ++ places)
      pure (scientific mantissa (exponent - places.length))

/-- A numeral with an optional sign. -/
def floatOf? (s : List Char) : Option Float :=
  match s with
  | '-' :: rest => (magnitudeOf? rest).map fun x => -x
  | '+' :: rest => magnitudeOf? rest
  | _ => magnitudeOf? s

/-- The whole number `m` and the exponent `q` such that a finite double is `m · 2 ^ q`, but for its
sign. -/
def binaryOf (x : Float) : Nat × Int :=
  let (fraction, exponent) := x.abs.frExp
  ((fraction.scaleB 53).toUInt64.toNat, exponent - 53)

/-- How often `10 ^ e` goes into `m · 2 ^ q`, to the nearest whole number. -/
def multipleOf (m : Nat) (q e : Int) : Nat :=
  let size := m * .pow 2 q.toNat * .pow 10 (-e).toNat
  let unit : Nat := .pow 2 (-q).toNat * .pow 10 e.toNat
  (2 * size + unit) / (2 * unit)

/-- Takes ever smaller powers of ten, from `10 ^ e` on, until a multiple of one denotes `m · 2 ^ q`.
-/
def decimalFrom (m : Nat) (q : Int) : Nat → Int → Nat × Int
  | 0, e => (multipleOf m q e, e)
  | fuel + 1, e =>
    let denotes (n : Nat) : Bool := scientific n e == (Float.ofNat m).scaleB q
    let n := multipleOf m q e
    if denotes n then (n, e)
    -- Above a power of two, doubles lie farther apart than below it: the next multiple may denote
    -- it where the nearest does not.
    else if denotes (n + 1) then (n + 1, e)
    else decimalFrom m q fuel (e - 1)

/-- A decimal `n · 10 ^ e` that denotes the magnitude of a finite double, with `e` as great as can
be. The first power of ten is above the double, by its logarithm; 17 digits always are enough. -/
def decimalOf (x : Float) : Nat × Int :=
  let (m, q) := binaryOf x
  decimalFrom m q 20 ((q + m.log2 + 1) * 30103 / 100000 + 1)

end LiveTrip.Text
