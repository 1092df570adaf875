import LiveTrip.Text.Numeral

/-!
# JSON text

The grammar of RFC 8259 without extensions: no byte order mark, no comments, nothing but blanks
after the value.

* `Json.Numeral`: a number as it is written; `Numeral.nat?` and `Numeral.float?` give its value.
* `Json`: a value. Members of an object stay in order, repeated names included. A string whose
  escapes pair no surrogates has no text.
* `Json.read?`: the value of a text.
* `Json.text`: the text of a value, without blanks. `Json.ofNat` and `Json.ofFloat` are the values
  of numbers.

Reading keeps the containers that are still open in a list, so that text nested to any depth is read
without deep recursion.
-/

namespace LiveTrip

/-- A number as it is written. -/
structure Json.Numeral where
  negative : Bool := false
  /-- Digits before the point. -/
  whole : List Char
  /-- Digits after the point, if there is one. -/
  places : Option (List Char) := none
  /-- Sign (`true` is minus) and digits of the exponent, if there is one. -/
  exponent : Option (Bool × List Char) := none
  deriving DecidableEq, Repr, Inhabited

inductive Json
  | null
  | bool (b : Bool)
  | number (n : Json.Numeral)
  | string (text : Option String)
  | array (items : List Json)
  | object (members : List (Option String × Json))
  deriving Inhabited

namespace Json

open Text

namespace Numeral

/-- The number without fraction, exponent and sign, below `bound`. -/
def nat? (bound : Nat) (n : Numeral) : Option Nat :=
  if n.negative || n.places.isSome || n.exponent.isSome then none
  else (digitsOf? digit? 10 n.whole).filter (· < bound)

/-- Digits are taken into a 64-bit significand as long as it holds them: the significand, and the
digits that are left over. -/
def significand : List Char → Nat → Nat × List Char
  | [], acc => (acc, [])
  | c :: rest, acc =>
    let next := acc * 10 + (digit? c).getD 0
    if next < longBound then significand rest next else (acc, c :: rest)

/-- A double times a power of ten, in steps that a double can hold; `none` if it becomes infinite.
-/
def scale : Nat → Float → Int → Option Float
  | 0, x, _ => some x
  | fuel + 1, x, e =>
    if e.natAbs ≤ 308 then
      let pow := Float.ofScientific 1 false e.natAbs
      if e < 0 then some (x / pow)
      else
        let y := x * pow
        if y.isInf then none else some y
    else if x == 0.0 then some x
    else if e < 0 then scale fuel (x / 1e308) (e + 308)
    else none

/-- Exponents are read up to this bound. -/
def exponentBound : Nat := .pow 2 31

/-- The double of a numeral: the significand as a double, scaled by a power of ten. Digits that the
significand cannot hold count as zeros before the point and for nothing after it. `none` if the
number is too large for a double. -/
def float? (n : Numeral) : Option Float :=
  let (m, left) := significand n.whole 0
  let (m, exponent) : Nat × Int := match n.places with
    | none => (m, left.length)
    | some places =>
      let (m', unused) := significand places m
      (m', (left.length : Int) - (places.length - unused.length : Nat))
  let signed (x : Float) : Float := if n.negative then -x else x
  match n.exponent with
  | none =>
    if n.places.isNone && left.isEmpty then some (signed (Float.ofNat m))
    else (scale 4 (Float.ofNat m) exponent).map signed
  | some (minus, digits) =>
    let e := (digitsOf? digit? 10 digits).getD 0
    if e < exponentBound then
      (scale 4 (Float.ofNat m) (if minus then exponent - e else exponent + e)).map signed
    -- An exponent out of all bounds leaves zero, or nothing.
    else if m = 0 || minus then some (signed 0.0)
    else none

end Numeral

/-! ## Reading -/

def isSpace (c : Char) : Bool := c = ' ' || c = '\t' || c = '\n' || c = '\r'

def skipSpace (s : List Char) : List Char := s.dropWhile isSpace

/-- The number that four hexadecimal digits denote. -/
def hex4? (digits : List Char) : Option Nat := digitsOf? hexDigit? 16 digits

/-- The character of a pair of surrogates. -/
def pairOf (high low : Nat) : Char :=
  Char.ofNat (0x10000 + (high - 0xD800) * 0x400 + (low - 0xDC00))

/-- The character that a letter after a backslash stands for. -/
def escapeOf? (c : Char) : Option Char :=
  match c with
  | '"' => some '"'
  | '\\' => some '\\'
  | '/' => some '/'
  | 'b' => some '\x08'
  | 'f' => some '\x0c'
  | 'n' => some '\n'
  | 'r' => some '\r'
  | 't' => some '\t'
  | _ => none

/-- A string that is being read. -/
inductive Draft
  /-- Its text so far, last character first. -/
  | text (cs : List Char)
  /-- A high surrogate waits for the low one. -/
  | half (cs : List Char) (high : Nat)
  /-- A surrogate stood alone. -/
  | broken

namespace Draft

def push : Draft → Char → Draft
  | text cs, c => text (c :: cs)
  | _, _ => broken

/-- Takes in a unit of 16 bits. -/
def pushUnit : Draft → Nat → Draft
  | text cs, n =>
    if 0xD800 ≤ n ∧ n < 0xDC00 then half cs n
    else if 0xDC00 ≤ n ∧ n < 0xE000 then broken
    else text (Char.ofNat n :: cs)
  | half cs high, n => if 0xDC00 ≤ n ∧ n < 0xE000 then text (pairOf high n :: cs) else broken
  | broken, _ => broken

def text? : Draft → Option String
  | text cs => some (String.ofList cs.reverse)
  | _ => none

end Draft

/-- Reads a string whose opening quote has been passed. -/
def readString : List Char → Draft → Option (Option String × List Char)
  | [], _ => none
  | c :: rest, d =>
    if c = '"' then some (d.text?, rest)
    else if c.toNat < 0x20 then none
    else if c ≠ '\\' then readString rest (d.push c)
    else match rest with
      | 'u' :: h₁ :: h₂ :: h₃ :: h₄ :: rest =>
        match hex4? [h₁, h₂, h₃, h₄] with
        | some n => readString rest (d.pushUnit n)
        | none => none
      | 'u' :: _ => none
      | e :: rest =>
        match escapeOf? e with
        | some c => readString rest (d.push c)
        | none => none
      | [] => none

/-- Reads the digits after a point, if there is one. -/
def readPlaces : List Char → Option (Option (List Char) × List Char)
  | '.' :: s =>
    let (places, rest) := splitDigits s
    if places.isEmpty then none else some (some places, rest)
  | s => some (none, s)

/-- Reads a sign, `true` if it is minus. -/
def readSign : List Char → Bool × List Char
  | '-' :: s => (true, s)
  | '+' :: s => (false, s)
  | s => (false, s)

/-- Reads an exponent, if there is one. -/
def readExponent : List Char → Option (Option (Bool × List Char) × List Char)
  | c :: s =>
    if c = 'e' ∨ c = 'E' then
      let (minus, s) := readSign s
      let (digits, rest) := splitDigits s
      if digits.isEmpty then none else some (some (minus, digits), rest)
    else some (none, c :: s)
  | [] => some (none, [])

/-- Reads a number after its sign. -/
def readMagnitude (negative : Bool) (s : List Char) : Option (Numeral × List Char) :=
  let (whole, rest) := splitDigits s
  if whole.isEmpty || (whole.head? = some '0' && whole.length ≠ 1) then none
  else do
    let (places, rest) ← readPlaces rest
    let (exponent, rest) ← readExponent rest
    pure ({ negative, whole, places, exponent }, rest)

def readNumber (s : List Char) : Option (Numeral × List Char) :=
  match s with
  | '-' :: rest => readMagnitude true rest
  | _ => readMagnitude false s

/-- A container that is still open: what it holds so far, last first. -/
inductive Pending
  | array (items : List Json)
  /-- An object, with the name that waits for its value. -/
  | object (members : List (Option String × Json)) (name : Option String)

/-- What comes next: a value, or what may follow the value just read. -/
inductive Next
  | value
  | after (v : Json)

/-- Reads a member name and its colon. -/
def readName (s : List Char) : Option (Option String × List Char) :=
  match skipSpace s with
  | '"' :: rest =>
    match readString rest (.text []) with
    | some (name, rest) =>
      match skipSpace rest with
      | ':' :: rest => some (name, rest)
      | _ => none
    | none => none
  | _ => none

/-- Reads the value of a whole text, given the containers that are open. -/
def readLoop : Nat → Next → List Char → List Pending → Option Json
  | 0, _, _, _ => none
  | fuel + 1, .value, s, stack =>
    match skipSpace s with
    | '{' :: rest =>
      match skipSpace rest with
      | '}' :: rest => readLoop fuel (.after (.object [])) rest stack
      | rest =>
        match readName rest with
        | some (name, rest) => readLoop fuel .value rest (.object [] name :: stack)
        | none => none
    | '[' :: rest =>
      match skipSpace rest with
      | ']' :: rest => readLoop fuel (.after (.array [])) rest stack
      | rest => readLoop fuel .value rest (.array [] :: stack)
    | '"' :: rest =>
      match readString rest (.text []) with
      | some (text, rest) => readLoop fuel (.after (.string text)) rest stack
      | none => none
    | 't' :: 'r' :: 'u' :: 'e' :: rest => readLoop fuel (.after (.bool true)) rest stack
    | 'f' :: 'a' :: 'l' :: 's' :: 'e' :: rest => readLoop fuel (.after (.bool false)) rest stack
    | 'n' :: 'u' :: 'l' :: 'l' :: rest => readLoop fuel (.after .null) rest stack
    | s =>
      match readNumber s with
      | some (n, rest) => readLoop fuel (.after (.number n)) rest stack
      | none => none
  | fuel + 1, .after v, s, stack =>
    match stack with
    | [] => if (skipSpace s).isEmpty then some v else none
    | .array items :: stack =>
      match skipSpace s with
      | ',' :: rest => readLoop fuel .value rest (.array (v :: items) :: stack)
      | ']' :: rest => readLoop fuel (.after (.array (v :: items).reverse)) rest stack
      | _ => none
    | .object members name :: stack =>
      match skipSpace s with
      | ',' :: rest =>
        match readName rest with
        | some (next, rest) =>
          readLoop fuel .value rest (.object ((name, v) :: members) next :: stack)
        | none => none
      | '}' :: rest => readLoop fuel (.after (.object ((name, v) :: members).reverse)) rest stack
      | _ => none

/-- The value of a text. Every round takes up a character, or it is the last. -/
def read? (text : String) : Option Json :=
  let s := text.toList
  readLoop (s.length + 2) .value s []

/-! ## Writing -/

namespace Numeral

def ofNat (n : Nat) : Numeral := { whole := Nat.toDigits 10 n }

/-- The numeral of `n · 10 ^ e`: with a point, and a digit at least on both sides of it, unless that
takes more than 16 digits before the point, or five zeros after it; else with an exponent. -/
def ofDecimal (negative : Bool) (n : Nat) (e : Int) : Numeral :=
  let digits := Nat.toDigits 10 n
  -- How many of the digits stand before the point.
  let before : Int := digits.length + e
  if n = 0 then { negative, whole := ['0'], places := some ['0'] }
  else if 0 ≤ e ∧ before ≤ 16 then
    { negative, whole := digits ++ .replicate e.toNat '0', places := some ['0'] }
  else if 0 < before ∧ before ≤ 16 then
    { negative, whole := digits.take before.toNat, places := some (digits.drop before.toNat) }
  else if -5 < before ∧ before ≤ 0 then
    { negative, whole := ['0'], places := some (.replicate (-before).toNat '0' ++ digits) }
  else
    { negative, whole := digits.take 1
      places := if digits.length = 1 then none else some (digits.drop 1)
      exponent := some (before < 1, Nat.toDigits 10 (before - 1).natAbs) }

/-- The numeral of a finite double. Zero has a sign. -/
def ofFloat (x : Float) : Numeral :=
  let d := decimalOf x
  ofDecimal (x.toBits >>> 63 = 1) d.1 d.2

/-- The digits after the point, if there is one, as they are written. -/
def placesChars : Option (List Char) → List Char
  | some places => '.' :: places
  | none => []

/-- An exponent, if there is one, as it is written. -/
def exponentChars : Option (Bool × List Char) → List Char
  | some (true, digits) => 'e' :: '-' :: digits
  | some (false, digits) => 'e' :: digits
  | none => []

/-- A numeral without its sign as it is written. -/
def magnitudeChars (n : Numeral) : List Char :=
  n.whole ++ (placesChars n.places ++ exponentChars n.exponent)

/-- A numeral as it is written. -/
def chars (n : Numeral) : List Char :=
  if n.negative then '-' :: n.magnitudeChars else n.magnitudeChars

end Numeral

def ofNat (n : Nat) : Json := .number (.ofNat n)

/-- A double. Infinities and not a number have no numeral. -/
def ofFloat (x : Float) : Json := if x.isFinite then .number (.ofFloat x) else .null

def ofOption {α : Type} (f : α → Json) : Option α → Json
  | some a => f a
  | none => .null

/-- The two last hexadecimal digits of a number. -/
def hex2 (n : Nat) : List Char := [n / 16 % 16, n % 16].map Nat.digitChar

/-- A character as it is written in a string. -/
def escape (c : Char) : List Char :=
  match c with
  | '"' => ['\\', '"']
  | '\\' => ['\\', '\\']
  | '\x08' => ['\\', 'b']
  | '\x0c' => ['\\', 'f']
  | '\n' => ['\\', 'n']
  | '\r' => ['\\', 'r']
  | '\t' => ['\\', 't']
  | c => if c.toNat < 0x20 then '\\' :: 'u' :: '0' :: '0' :: hex2 c.toNat else [c]

/-- What stands between the quotation marks of a string. One without text is a surrogate alone. -/
def stringChars : Option String → List Char
  | some text => text.toList.flatMap escape
  | none => ['\\', 'u', 'd', '8', '0', '0']

/-- A string as it is written. -/
def quoted (text : Option String) : List Char := '"' :: stringChars text ++ ['"']

mutual

/-- A value as it is written. -/
def chars : Json → List Char
  | null => ['n', 'u', 'l', 'l']
  | bool true => ['t', 'r', 'u', 'e']
  | bool false => ['f', 'a', 'l', 's', 'e']
  | number n => n.chars
  | string text => quoted text
  | array [] => ['[', ']']
  | array (v :: items) => '[' :: chars v ++ itemChars items
  | object [] => ['{', '}']
  | object ((name, v) :: members) => '{' :: quoted name ++ ':' :: chars v ++ memberChars members

/-- The items of an array after the first one, and its end. -/
def itemChars : List Json → List Char
  | [] => [']']
  | v :: items => ',' :: chars v ++ itemChars items

/-- The members of an object after the first one, and its end. -/
def memberChars : List (Option String × Json) → List Char
  | [] => ['}']
  | (name, v) :: members => ',' :: quoted name ++ ':' :: chars v ++ memberChars members

end

/-- The text of a value. -/
def text (v : Json) : String := .ofList v.chars

end Json
end LiveTrip
