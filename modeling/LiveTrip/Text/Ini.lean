import LiveTrip.Text.Blank
import LiveTrip.Text.Numeral

/-!
# INI text

Sections in brackets, `key=value` lines, comments that start a line. Names and values may be
escaped, and values may be quoted.

* `Section`: a name and its entries in order; `Document`: the entries before any section, and the
  sections in order. Sections of one name stay apart.
* `Document.read?`: the document of a text, if the text follows the grammar.
* `Document.write`: the text of a document.
* `Document.section?`, `Section.value?`: the first section of a name and the first value of a key.

Reading goes over the characters once. A `Cursor` is the rest of the text with the column reached;
every reader below gives back a cursor that is not longer than the one it took.
-/

namespace LiveTrip.Ini

open Text

/-- A section: its name and its entries in order. -/
structure Section where
  name : String
  entries : List (String × String) := []
  deriving DecidableEq, Repr, Inhabited

/-- The first value of a key. -/
def Section.value? (s : Section) (key : String) : Option String :=
  (s.entries.find? (·.1 == key)).map (·.2)

/-- A document. -/
structure Document where
  /-- Entries before any section. -/
  loose : List (String × String) := []
  sections : List Section := []
  deriving DecidableEq, Repr, Inhabited

/-- The first section of a name. -/
def Document.section? (d : Document) (name : String) : Option Section :=
  d.sections.find? (·.name == name)

/-- The rest of a text and the number of characters since the last line feed. -/
structure Cursor where
  rest : List Char
  column : Nat := 0

/-- The column after a character. -/
def Cursor.columnAfter (column : Nat) (c : Char) : Nat := if c = '\n' then 0 else column + 1

/-- The cursor past the blanks that `keep` does not stop at. -/
def skipWhile (p : Char → Bool) : List Char → Nat → Cursor
  | [], column => ⟨[], column⟩
  | c :: rest, column =>
    if p c then skipWhile p rest (Cursor.columnAfter column c) else ⟨c :: rest, column⟩

def isLineBreak (c : Char) : Bool := c = '\n' || c = '\r'

def isIndent (c : Char) : Bool := c = ' ' || c = '\t'

/-- Past blanks, but not past a line break that an indented line follows. -/
def skipBlanks : List Char → Nat → Cursor
  | [], column => ⟨[], column⟩
  | c :: rest, column =>
    if isBlank c then
      if isLineBreak c && rest.head?.any isIndent then ⟨rest, Cursor.columnAfter column c⟩
      else skipBlanks rest (Cursor.columnAfter column c)
    else ⟨c :: rest, column⟩

/-- Past the end of the line. -/
def skipLine : List Char → Nat → Cursor
  | [], column => ⟨[], column⟩
  | c :: rest, column => if c = '\n' then ⟨rest, 0⟩ else skipLine rest (column + 1)

/-- The character that four hexadecimal digits denote. A plus sign may stand for the first. -/
def unicodeOf? (digits : List Char) : Option Char :=
  match unsignedOf? hexDigit? 16 digits with
  | some n => if n.isValidChar then some (Char.ofNat n) else none
  | none => none

/-- Where reading stops at a code of `count` digits that denotes nothing. The text starts with the
character before the digits. Reading stops at the last of them, at the end of the text, or past a
backslash, unless a line feed follows that, which is then passed over. -/
def codeEnd : Nat → List Char → Nat → Cursor
  | _, [], column => ⟨[], column⟩
  | 0, s, column => ⟨s, column⟩
  | count + 1, c :: '\\' :: rest, column =>
    let column := Cursor.columnAfter column c + 1
    match rest with
    | '\n' :: more => codeEnd count ('\n' :: more) column
    | _ => ⟨rest, column⟩
  | count + 1, c :: rest, column => codeEnd count rest (Cursor.columnAfter column c)

/-- The single characters that a backslash gives a meaning of their own. -/
def escapeOf (c : Char) : Option Char :=
  match c with
  | '0' => some '\x00'
  | 'a' => some '\x07'
  | 'b' => some '\x08'
  | 't' => some '\t'
  | 'r' => some '\r'
  | 'n' => some '\n'
  | '\n' => none
  | c => some c

/-- What a reader of a stretch of text ends with. -/
inductive Stretch
  /-- The text read, without its end mark, which the cursor stands at. -/
  | ended (text : List Char) (next : Cursor)
  /-- The stretch is not well formed; reading may go on from the cursor. -/
  | broken (next : Cursor)

/-- Reads up to a character that satisfies `stop`, with escapes undone. At the end of the text the
stretch is complete iff `atEnd`. `acc` is what has been read, last character first. -/
def readUntil (stop : Char → Bool) (atEnd : Bool) :
    List Char → Nat → List Char → Stretch
  | [], column, acc => if atEnd then .ended acc.reverse ⟨[], column⟩ else .broken ⟨[], column⟩
  | '\\' :: rest, column, acc =>
    match rest with
    | [] => readUntil stop atEnd [] (column + 1) ('\\' :: acc)
    | 'x' :: a :: b :: c :: d :: more =>
      match unicodeOf? [a, b, c, d] with
      | some u => readUntil stop atEnd more (column + 6) (u :: acc)
      | none => .broken (codeEnd 4 ('x' :: a :: b :: c :: d :: more) (column + 1))
    | 'x' :: few => .broken (codeEnd 4 ('x' :: few) (column + 1))
    | c :: more =>
      readUntil stop atEnd more (Cursor.columnAfter (column + 1) c) ((escapeOf c).toList ++ acc)
  | c :: rest, column, acc =>
    if stop c then .ended acc.reverse ⟨c :: rest, column⟩
    else readUntil stop atEnd rest (Cursor.columnAfter column c) (c :: acc)

/-- Reads a value whose first character the text starts with: quoted parts, then the rest of the
line. `first` says that nothing of the value has been read yet. -/
def readValue (fuel : Nat) (s : List Char) (column : Nat) (first : Bool) (acc : List Char) :
    Stretch :=
  match fuel with
  | 0 => .broken ⟨s, column⟩
  | fuel + 1 =>
    match s with
    | [] => .ended acc ⟨[], column⟩
    | q :: rest =>
      if q = '"' ∨ q = '\'' then
        match readUntil (· = q) false rest (column + 1) [] with
        | .ended text ⟨_ :: more, column⟩ => readValue fuel more (column + 1) false (acc ++ text)
        | .ended text ⟨[], column⟩ => .ended (acc ++ text) ⟨[], column⟩
        | .broken next => .broken next
      else
        match readUntil isLineBreak true s column [] with
        | .ended text next => .ended (acc ++ (if first then trim text else trimEnd text)) next
        | .broken next => .broken next

/-- What has been read of a document: its parts in reverse, and the key that waits for its value. -/
structure Reading where
  loose : List (String × String) := []
  sections : List Section := []
  pending : List Char := []

namespace Reading

def openSection (r : Reading) (name : List Char) : Reading :=
  { r with sections := ⟨String.ofList name, []⟩ :: r.sections }

/-- The pending key gets its value, in the section opened last. -/
def addValue (r : Reading) (value : List Char) : Reading :=
  let entry := (String.ofList r.pending, String.ofList value)
  match r.sections with
  | [] => { r with loose := entry :: r.loose, pending := [] }
  | s :: more =>
    { r with sections := { s with entries := entry :: s.entries } :: more, pending := [] }

def document (r : Reading) : Document where
  loose := r.loose.reverse
  sections := (r.sections.map fun s => { s with entries := s.entries.reverse }).reverse

end Reading

/-- Reads a section header whose bracket has been passed. -/
def readSection (r : Reading) (s : List Char) (column : Nat) : Option (Reading × Cursor) :=
  match readUntil (· = ']') false s column [] with
  | .ended name ⟨_ :: rest, column⟩ => some (r.openSection (trim name), ⟨rest, column + 1⟩)
  | .ended name next => some (r.openSection (trim name), next)
  | .broken _ => none

/-- Ends a key. -/
def isAssign (c : Char) : Bool := c = '=' || c = ':'

/-- Reads one item; a value of it has fewer than `fuel` parts. `none` is an error. -/
def readItem (fuel : Nat) (r : Reading) (s : List Char) (column : Nat) :
    Option (Reading × Cursor) :=
  match s with
  | [] => some (r, ⟨[], column⟩)
  | c :: rest =>
    if c = ';' ∨ c = '#' then
      -- A comment starts its line.
      if column = 0 then some (r, skipLine s column) else none
    else if c = '[' then readSection r rest (column + 1)
    else if isAssign c then
      if r.pending.isEmpty then none
      else
        let start := skipWhile (fun b => isBlank b && !isLineBreak b) rest (column + 1)
        match readValue fuel start.rest start.column true [] with
        | .ended value next => some (r.addValue value, next)
        | .broken _ => none
    else if isIndent c then
      match skipWhile isIndent s column with
      | ⟨[], column⟩ => some (r, ⟨[], column⟩)
      | ⟨d :: more, column⟩ =>
        if d = '[' then readSection r more (column + 1)
        else if isLineBreak d then some (r, ⟨more, Cursor.columnAfter column d⟩)
        else match readUntil isAssign false (d :: more) column [] with
          | .ended key next => some ({ r with pending := trim key }, next)
          -- An indented line that is no key is passed over.
          | .broken next => some (r, next)
    else if isLineBreak c then some (r, ⟨rest, Cursor.columnAfter column c⟩)
    else match readUntil isAssign false s column [] with
      | .ended key next => some ({ r with pending := trim key }, next)
      | .broken _ => none

/-- Reads items, each followed by blanks, to the end of the text. -/
def readItems : Nat → Reading → Cursor → Option Reading
  | 0, _, _ => none
  | fuel + 1, r, cursor =>
    if cursor.rest.isEmpty then some r
    else match readItem (fuel + 1) r cursor.rest cursor.column with
      | some (r, next) => readItems fuel r (skipBlanks next.rest next.column)
      | none => none

/-- The document of a text. Every item takes up a character at least, which bounds their number. -/
def Document.read? (text : String) : Option Document :=
  let s := text.toList
  (readItems (s.length + 1) {} (skipWhile isBlank s 0)).map (·.document)

/-- The hexadecimal digits of a number below 65536. -/
def hex4 (n : Nat) : List Char :=
  [n / 4096 % 16, n / 256 % 16, n / 16 % 16, n % 16].map (Nat.digitChar ·)

/-- A character as it is written: backslash and the control characters of ASCII are escaped. -/
def escape (c : Char) : List Char :=
  match c with
  | '\\' => ['\\', '\\']
  | '\x00' => ['\\', '0']
  | '\x07' => ['\\', 'a']
  | '\x08' => ['\\', 'b']
  | '\x0c' => ['\\', 'f']
  | '\x0b' => ['\\', 'v']
  | '\n' => ['\\', 'n']
  | '\t' => ['\\', 't']
  | '\r' => ['\\', 'r']
  | c => if c.toNat < 0x20 ∨ c.toNat = 0x7F then '\\' :: 'x' :: hex4 c.toNat else [c]

def writeText (s : String) : String := String.ofList (s.toList.flatMap escape)

/-- The lines of entries. -/
def writeEntries (entries : List (String × String)) : String :=
  String.join (entries.map fun (key, value) => writeText key ++ "=" ++ writeText value ++ "\n")

/-- The lines of a section. -/
def Section.write (s : Section) : String :=
  "[" ++ writeText s.name ++ "]\n" ++ writeEntries s.entries

/-- The text of a document: its sections with an empty line between them. -/
def Document.write (d : Document) : String :=
  "\n".intercalate (
    (if d.loose.isEmpty then [] else [writeEntries d.loose]) ++ d.sections.map Section.write)

end LiveTrip.Ini
