import PatternPages.Text.Numeral
import PatternPages.Text.Reading
import PatternPages.Xml.Character

/-! References and line ends. In a text every line end becomes a line feed, in an attribute value every line end and every
tab a space; a character that is written as a reference stays as it is. -/
namespace PatternPages.Xml

open Text (Read andThen expect run)

/-- A character of a text: written as itself or as a reference. -/
inductive Written where
  | literal (c : Char)
  | reference (c : Char)

/-- The names of references, cut behind the first character, and the characters that they stand for. -/
def namedCharacters : List (Char × Text × Char) :=
  [('q', "uot".toList, '"'), ('a', "mp".toList, '&'), ('a', "pos".toList, '\x27'), ('l', "t".toList, '<'),
    ('g', "t".toList, '>')]

def isHexDigit (c : Char) : Bool := c.isDigit || ('a' ≤ c && c ≤ 'f') || ('A' ≤ c && c ≤ 'F')

def hexDigitValue (c : Char) : Nat :=
  if c.isDigit then Text.digitValue c
  else if c ≤ 'F' then c.toNat - 'A'.toNat + 10
  else c.toNat - 'a'.toNat + 10

def codePoint? (base : Nat) (digitValue : Char → Nat) (digits : Text) : Option Nat :=
  let value := digits.foldl (fun n c => base * n + digitValue c) 0
  if value < Text.bound32 then some value else none

/-- The character with a code point; what is no scalar value becomes a replacement character. -/
def characterAt? (n : Nat) : Option Char :=
  let c := if n < 0xD800 || (0xDFFF < n && n ≤ 0x10FFFF) then Char.ofNat n else '\ufffd'
  if isCharacter c then some c else none

/-- Hexadecimal digits behind an `x`, or decimal digits. -/
def readCodePoint (s : Text) : Option (Read Nat s) :=
  match expect 'x' [] s with
  | some r =>
    ((run isHexDigit r.rest).bind (·.mapOption (codePoint? 16 hexDigitValue))).map r.followedBy
  | none => (run Char.isDigit s).bind (·.mapOption (codePoint? 10 Text.digitValue))

def readEnd {α : Type} (a : α) (s : Text) : Option (Read α s) :=
  (expect ';' [] s).map fun r => r.map fun () => a

def readNamed (s : Text) : List (Char × Text × Char) → Option (Read Char s)
  | [] => none
  | (first, more, c) :: others =>
    match expect first more s with
    | some r => some (r.map fun () => c)
    | none => readNamed s others

def readReference (s : Text) : Option (Read Char s) :=
  match expect '#' [] s with
  | some r =>
    (andThen ((readCodePoint r.rest).bind (·.mapOption characterAt?)) readEnd).map r.followedBy
  | none => andThen (readNamed s namedCharacters) readEnd

/-- The characters of a text; an ampersand that begins no reference is refused. -/
def characters (s : Text) : Option (List Written) :=
  match s with
  | [] => some []
  | c :: rest =>
    if c = '&' then
      match readReference rest with
      | none => none
      | some r => (characters r.rest).map (.reference r.value :: ·)
    else (characters rest).map (.literal c :: ·)
termination_by s.length
decreasing_by
  · exact Nat.lt_succ_of_lt r.shorter
  · exact Nat.lt_succ_self _

/-! ## Line ends -/

/-- Adds a character of a text to what was read, latest first. A carriage return is pending until the next
character, which takes the place of the line feed in a pair. -/
def pushLiteral (read : Text) (c : Char) (isLast : Bool) : Text :=
  match read with
  | '\r' :: before =>
    if isLast && c = '\r' then '\n' :: '\n' :: before
    else if c = '\n' then '\n' :: before
    else c :: '\n' :: before
  | _ => if isLast && c = '\r' then '\n' :: read else c :: read

/-- A reference and the character behind it are taken as they are. -/
def joinCharacters (read : Text) (afterReference : Bool) : List Written → Text
  | [] => read.reverse
  | .reference c :: rest => joinCharacters (c :: read) true rest
  | .literal c :: rest =>
    if afterReference then joinCharacters (c :: read) false rest
    else joinCharacters (pushLiteral read c rest.isEmpty) false rest

def textContent? (written : Text) : Option Text := (characters written).map (joinCharacters [] false)

/-- The content of a section, where nothing is a reference. -/
def sectionContent (written : Text) : Text := joinCharacters [] false (written.map .literal)

/-- A line end or a tab in an attribute value becomes one space. -/
def joinValue : List Written → Text
  | .literal '\r' :: .literal '\n' :: rest => ' ' :: joinValue rest
  | .literal c :: rest => (if c = '\n' || c = '\r' || c = '\t' then ' ' else c) :: joinValue rest
  | .reference c :: rest => c :: joinValue rest
  | [] => []

def attributeValue? (written : Text) : Option Text := (characters written).map joinValue

end PatternPages.Xml
