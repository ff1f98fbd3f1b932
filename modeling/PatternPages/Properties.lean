import PatternPages.OrderedMap
import PatternPages.Text.Lines

/-! Properties documents: entries of a key and a value, one on each logical line. A line that ends in an odd number of
backslashes goes on in the next one. `write` is the inverse of `parse`. -/
namespace PatternPages.Properties

/-! ## Logical lines -/

def trailingBackslashes (line : Text) : Nat := (line.reverse.takeWhile (· = '\\')).length

def continues (line : Text) : Bool := trailingBackslashes line % 2 = 1

def isComment (line : Text) : Bool := line.head? = some '#' || line.head? = some '!'

/-- Joins physical lines, without the white space at their beginning; `pending` is the line being continued. A comment
is no entry and never continues, but a continued line may look like one. -/
def joinLines : Option Text → List Text → List Text
  | none, [] => []
  | some pending, [] => [pending]
  | none, line :: rest =>
    let line := Text.trimStart line
    if isComment line then joinLines none rest
    else if continues line then joinLines (some line.dropLast) rest
    else line :: joinLines none rest
  | some pending, line :: rest =>
    let line := pending ++ Text.trimStart line
    if continues line then joinLines (some line.dropLast) rest
    else line :: joinLines none rest

def logicalLines (source : Text) : List Text := joinLines none (Text.lines source)

/-! ## Entries -/

def isAssignment (c : Char) : Bool := c = '=' || c = ':'

/-- Cuts before the first unescaped assignment sign or white space. -/
def splitKey (escaped : Bool) : Text → Text × Text
  | [] => ([], [])
  | c :: rest =>
    if !escaped && (isAssignment c || Text.isBlank c) then ([], c :: rest)
    else
      let split := splitKey (!escaped && c = '\\') rest
      (c :: split.1, split.2)

def dropAssignment : Text → Text
  | c :: rest => if isAssignment c then rest else c :: rest
  | [] => []

def splitEntry (line : Text) : Text × Text :=
  let split := splitKey false line
  (split.1, Text.trimStart (dropAssignment (Text.trimStart split.2)))

/-! ## Escapes -/

def hexDigitValue? (c : Char) : Option Nat :=
  if '0' ≤ c && c ≤ '9' then some (c.toNat - '0'.toNat)
  else if 'a' ≤ c && c ≤ 'f' then some (c.toNat - 'a'.toNat + 10)
  else if 'A' ≤ c && c ≤ 'F' then some (c.toNat - 'A'.toNat + 10)
  else none

def hexValue? (digits : Text) : Option Nat :=
  digits.foldlM (fun n c => (hexDigitValue? c).map (16 * n + ·)) 0

/-- The character with the code point `n`, if that is a scalar value. -/
def scalar? (n : Nat) : Option Char :=
  if n < 0xD800 || (0xDFFF < n && n ≤ 0x10FFFF) then some (Char.ofNat n) else none

/-- The character of a unicode escape. A plus sign may stand in place of the first of its four digits. -/
def unicodeEscape? (a b c d : Char) : Option Char :=
  (hexValue? (if a = '+' then [b, c, d] else [a, b, c, d])).bind scalar?

def escaped (c : Char) : Char :=
  if c = 't' then '\t'
  else if c = 'n' then '\n'
  else if c = 'r' then '\r'
  else if c = 'f' then '\x0c'
  else c

/-- Resolves escapes. A `u` without the digits of a character behind it stands for itself, and a backslash at the end for
nothing. -/
def unescape : Text → Text
  | [] => []
  | c :: rest =>
    if c = '\\' then
      match rest with
      | [] => []
      | e :: rest =>
        if e = 'u' then
          match rest with
          | h₁ :: h₂ :: h₃ :: h₄ :: after =>
            match unicodeEscape? h₁ h₂ h₃ h₄ with
            | some character => character :: unescape after
            | none => 'u' :: unescape (h₁ :: h₂ :: h₃ :: h₄ :: after)
          | short => 'u' :: unescape short
        else escaped e :: unescape rest
    else c :: unescape rest

/-! ## Documents -/

abbrev Entries := OrderedMap Text Text

/-- The entries of a document; the last value of a key counts. -/
def parse (source : Text) : Entries :=
  let lines := (logicalLines source).filter fun line => !line.isEmpty
  .ofList (lines.map fun line =>
    let entry := splitEntry line
    (unescape entry.1, unescape entry.2))

def encodeChar (c : Char) : Text :=
  if c = '\t' then ['\\', 't']
  else if c = '\n' then ['\\', 'n']
  else if c = '\r' then ['\\', 'r']
  else if c = '\x0c' then ['\\', 'f']
  else if c = '\\' || isAssignment c || c = '#' || c = '!' || Text.isBlank c then ['\\', c]
  else [c]

def encode (s : Text) : Text := s.flatMap encodeChar

def write (entries : List (Text × Text)) : Text :=
  entries.flatMap fun entry => encode entry.1 ++ '=' :: encode entry.2 ++ ['\n']

end PatternPages.Properties
